import FpgaHashJoin.Host.ResultDecoder
import FpgaHashJoin.Kernel.AllInputs
import FpgaHashJoin.Rtl.UdpIpv4Tx

/-!
# Frames as datagrams

On the board every frame of the kernel becomes a UDP datagram, and the framer behind the
kernel takes at most `maxTxPayloadBytes` bytes up to TLAST. Frames with a fixed length and
the RESULT frames of Algorithm A fit. Algorithm B fills its whole result buffer: a partition
with more than `maxDatagramPairs` matches produces a frame that blocks the framer for good.
-/

namespace FpgaHashJoin

open Process EquiJoin GraceHashEngine KState PacketStream

/-- `MAX_TX_PAYLOAD_BYTES` of the stream bridge. -/
def maxTxPayloadBytes : Nat := 1472

/-- The pairs of a RESULT frame of that size. -/
def maxDatagramPairs : Nat := 122

/-! ## TLAST -/

section Tlast

/-- No byte carries TLAST. -/
def quiet (xs : List AxisByte) : Bool := xs.all fun y => !y.last

theorem quiet_append (xs ys : List AxisByte) : quiet (xs ++ ys) = (quiet xs && quiet ys) :=
  List.all_append

theorem quiet_txU16 (v : UInt16) : quiet (txU16 v false) = true := rfl
theorem quiet_txU32 (v : UInt32) : quiet (txU32 v false) = true := rfl
theorem quiet_txU64 (v : UInt64) : quiet (txU64 v false) = true := rfl
theorem quiet_txHeader (type : MsgType) (count : UInt16) : quiet (txHeader type count) = true := rfl

theorem isPacket_after {front p : List AxisByte} (h : IsPacket AxisByte.last p)
    (hfront : quiet front = true) : IsPacket AxisByte.last (front ++ p) :=
  h.append (by simpa [quiet] using hfront)

theorem isPacket_txU16 (v : UInt16) : IsPacket AxisByte.last (txU16 v true) :=
  ⟨_, _, rfl, rfl, by simp [txByte]⟩

theorem isPacket_txU32 (v : UInt32) : IsPacket AxisByte.last (txU32 v true) :=
  ⟨_, _, rfl, rfl, by simp [txByte]⟩

theorem isPacket_txPairs {pairs : List ResultPair} (h : pairs ≠ []) :
    IsPacket AxisByte.last (txPairs pairs) := by
  induction pairs with
  | nil => exact absurd rfl h
  | cons p ps ih =>
    cases ps with
    | nil =>
      rw [txPairs, txPairs, List.append_nil]
      exact isPacket_after (isPacket_txU16 _) rfl
    | cons p' ps => exact isPacket_after (ih (by simp)) rfl

theorem isPacket_txTimingFields (t : TimingSummaryPayload) :
    IsPacket AxisByte.last (txTimingFields t) := by
  unfold txTimingFields
  refine isPacket_after (isPacket_txU32 t.hashTableLoadFactorPpm) ?_
  simp only [quiet_append, quiet_txU16, quiet_txU32, quiet_txU64, Bool.and_true]

/-- **Every frame ends with TLAST**, and the flag is nowhere else. -/
theorem TxFrame.isPacket {f : TxFrame} (h : f.WellFormed) : IsPacket AxisByte.last f.axis := by
  cases f with
  | ack p => exact isPacket_after (isPacket_txU32 p.rowsMatched) rfl
  | status p => exact isPacket_after (isPacket_txU32 p.rowsMatched) rfl
  | error code => exact isPacket_after (IsPacket.single rfl) (quiet_txHeader _ _)
  | results pairs =>
    have hne : pairs.isEmpty = false := by simpa using h.1
    rw [axis, txResults, hne, if_neg Bool.false_ne_true]
    exact isPacket_after (isPacket_txPairs h.1) (quiet_txHeader _ _)
  | timing t => exact isPacket_after (isPacket_txTimingFields t) (quiet_txHeader _ _)
  | debug level code value => exact isPacket_after (isPacket_txU32 value) rfl

theorem length_txPairs (pairs : List ResultPair) : (txPairs pairs).length = 12 * pairs.length := by
  induction pairs with
  | nil => rfl
  | cons p ps ih =>
    rw [txPairs, List.length_append, ih, List.length_cons]
    simp only [txPair, txU32, txU16, txByte, List.length_append, List.length_singleton]
    omega

theorem TxFrame.length_axis_results {pairs : List ResultPair} (h : pairs ≠ []) :
    (TxFrame.results pairs).axis.length = 3 + 12 * pairs.length := by
  have hne : pairs.isEmpty = false := by simpa using h
  rw [axis, txResults, hne, if_neg Bool.false_ne_true, List.length_append, length_txPairs]
  rfl

theorem length_axis_timing (t : TimingSummaryPayload) : (TxFrame.timing t).axis.length = 203 := by
  have hfields := ResultDecoder.length_txTimingFields t
  rw [List.length_map] at hfields
  rw [TxFrame.axis, txTimingSummary, List.length_append, hfields]
  rfl

/-- The frames that fit a datagram. -/
theorem TxFrame.length_axis_le {f : TxFrame} (hwf : f.WellFormed)
    (h : ∀ pairs, f = .results pairs → pairs.length ≤ maxDatagramPairs) :
    f.axis.length ≤ maxTxPayloadBytes := by
  cases f with
  | results pairs =>
    have hlen := h pairs rfl
    rw [length_axis_results hwf.1]
    simp only [maxDatagramPairs, maxTxPayloadBytes] at hlen ⊢
    omega
  | timing t =>
    rw [length_axis_timing]
    decide
  | ack p | status p =>
    have hlen : (txStatusFrame .ack p).length = 15 := rfl
    simp only [axis]
    exact hlen.le.trans (by decide)
  | error code => exact Nat.le_trans (m := 4) le_rfl (by decide)
  | debug level code value => exact Nat.le_trans (m := 10) le_rfl (by decide)

end Tlast

/-! ## One key -/

/-- One inner row and `n` outer rows with its key, for Algorithm B. -/
def oneKeyConfigure (n : Nat) : ConfigurePayload where
  algorithm := AlgorithmType.algorithmB.code
  keyType := KeyType.int32.code
  rxBufSlots := 512
  innerCount := 1
  outerCount := UInt32.ofNat n
  sessionId := 1

/-- There is one partition only. -/
def oneKeyConf (n : Nat) : Conf := ⟨1, .int32, 1, n, 1, 4 * (n + 1)⟩

def oneKeyInner : List InputTuple := [(8, ⟨0, 1⟩)]

def oneKeyOuter (n : Nat) : List InputTuple := List.replicate n (8, ⟨0, 2⟩)

/-- The reads of the session, with all outer rows in one frame. -/
def oneKeyReads (n : Nat) : Log :=
  (HostFrame.configure (oneKeyConfigure n)).reads ++
    (HostFrame.data .inner .int32 oneKeyInner).reads ++
    (HostFrame.data .outer .int32 (oneKeyOuter n)).reads

section OneKey

variable {n : Nat}

theorem checkConfigure_oneKey (hn : n ≤ rxBufTuples) :
    checkConfigure AlgorithmType.algorithmB.code 1 n = .ok (1, 4 * (n + 1)) := by
  rw [rxBufTuples_eq] at hn
  have hwidth : ((n / 1 + 1) * graceWordsPerTuple * 2) % 2 ^ 32 = 4 * (n + 1) := by
    rw [graceWordsPerTuple_eq]
    omega
  have harea : ¬ graceDdr2TotalWords < graceOuterAreaBase + 1 * (4 * (n + 1)) := by
    rw [graceDdr2TotalWords_eq, graceOuterAreaBase_eq]
    omega
  rw [checkConfigure, if_neg (by decide), if_pos rfl, if_neg (by decide)]
  simp only [htMaxRows_eq, Nat.reduceAdd, Nat.reduceSub, Nat.reduceDiv, one_ne_zero, if_false,
    hwidth, if_neg harea]

theorem oneKey_configure (hn : n ≤ rxBufTuples) : (kernelMachine (.csim {})).step .idle
    (.frame (.configure (oneKeyConfigure n))) =
      some ([.ack { phase := Phase.building.code, sessionId := 1, credit := 512 }],
        .graceBuild (oneKeyConf n) 0 []) := by
  have houter : (oneKeyConfigure n).outerCount.toNat = n :=
    UInt32.toNat_ofNat_of_lt' (show n < 4294967296 from hn.trans_lt (by decide))
  have hcheck : checkConfigure (oneKeyConfigure n).algorithm (oneKeyConfigure n).innerCount.toNat
      (oneKeyConfigure n).outerCount.toNat = .ok (1, 4 * (n + 1)) := by
    rw [houter]
    exact checkConfigure_oneKey hn
  change some (configureStep (.csim {}) (oneKeyConfigure n)) = _
  rw [configureStep, hcheck, houter]
  rfl

theorem partsFit_of_length {c : Conf} {limit : Nat} {rows : List InputTuple}
    (h : rows.length ≤ limit) : partsFit c limit rows := by
  intro p _
  exact (List.length_filter_le _ _).trans h

theorem oneKey_inner (hpos : 0 < n) :
    (kernelMachine (.csim {})).step (.graceBuild (oneKeyConf n) 0 [])
      (.frame (.data .inner .int32 oneKeyInner)) =
      some ([dataAck (oneKeyConf n) .building 1 1 0],
        .graceProbe (oneKeyConf n) 0 oneKeyInner []) := by
  have hfit : partsFit (oneKeyConf n) htMaxRows oneKeyInner := partsFit_of_length (by decide)
  change some (graceBuildStep (.csim {}) (oneKeyConf n) 0 [] oneKeyInner) = _
  rw [graceBuildStep, List.nil_append, if_pos hfit, enterGraceBuild,
    if_neg (fun h => absurd h.2 (lt_irrefl 1)), enterGraceProbe, if_pos ⟨Nat.zero_le _, hpos⟩]
  rfl

theorem oneKey_outer (hn : n ≤ rxBufTuples) :
    (kernelMachine (.csim {})).step (.graceProbe (oneKeyConf n) 0 oneKeyInner [])
      (.frame (.data .outer .int32 (oneKeyOuter n))) =
      some (Reaction.emit [dataAck (oneKeyConf n) .probing n n 0]
        (graceFinish (.csim {}) (oneKeyConf n) oneKeyInner (oneKeyOuter n))) := by
  have hlen : (oneKeyOuter n).length = n := List.length_replicate
  have hwire : (oneKeyOuter n).map KeyType.int32.wire = oneKeyOuter n := by
    rw [oneKeyOuter, List.map_replicate]
    rfl
  have hrows : dataRows (oneKeyConf n) .int32 (oneKeyOuter n) = some (oneKeyOuter n) := by
    rw [dataRows, if_pos ⟨rfl, hlen.le.trans hn⟩, hwire]
  have hfit : partsFit (oneKeyConf n) ((oneKeyConf n).outerSlotW / graceWordsPerTuple)
      (oneKeyOuter n) := by
    refine partsFit_of_length ?_
    rw [hlen, graceWordsPerTuple_eq]
    change n ≤ 4 * (n + 1) / 2
    omega
  have hall : ¬ (0 + 1 ≤ (UInt32.ofNat (oneKeyConf n).outerTotal + 1).toNat ∧
      (oneKeyOuter n).length < (oneKeyConf n).outerTotal) := by
    rw [hlen]
    exact fun h => absurd h.2 (lt_irrefl n)
  change (dataRows (oneKeyConf n) .int32 (oneKeyOuter n)).map
    (graceProbeStep (.csim {}) (oneKeyConf n) 0 oneKeyInner []) = _
  rw [hrows, Option.map_some, graceProbeStep, List.nil_append, if_pos hfit, enterGraceProbe,
    if_neg hall, hlen]
  rfl

/-- All pairs are in one frame. -/
theorem results_mem_graceFinish (hpos : 0 < n) (hn : n < txBufSize) :
    KOut.results (List.replicate n (⟨0, 1⟩, ⟨0, 2⟩)) ∈
      (graceFinish (.csim {}) (oneKeyConf n) oneKeyInner (oneKeyOuter n)).1 := by
  have hpart : ∀ rows, partRows (oneKeyConf n) 0 rows = rows := by
    intro rows
    refine List.filter_eq_self.mpr fun r _ => ?_
    exact decide_eq_true (Nat.mod_one _)
  have hfits : LinearHashTable.fits (partRows (oneKeyConf n) 0 oneKeyInner) := by
    rw [hpart]
    decide
  have hjoin : partJoin (oneKeyConf n) oneKeyInner (oneKeyOuter n) 0 =
      List.replicate n (⟨0, 1⟩, ⟨0, 2⟩) := by
    rw [partJoin, hpart, hpart]
    exact List.filterMap_replicate_of_some rfl
  have hbatch : Batching.batches txBufSize (List.replicate n ((⟨0, 1⟩, ⟨0, 2⟩) : ResultPair)) =
      [List.replicate n (⟨0, 1⟩, ⟨0, 2⟩)] :=
    Batching.batches_eq_singleton (by simpa using hpos) (by simpa using hn)
  have hrange : List.range (oneKeyConf n).K = [0] := rfl
  simp [graceFinish, hrange, joinParts, hfits, hjoin, hbatch, Reaction.emit]

/-- The session sends all its pairs in one RESULT frame. -/
theorem oneKey_run (hpos : 0 < n) (hn : n < txBufSize) :
    ∃ outs q, Runs (hashJoinKernel (.csim {}) default) (oneKeyReads n) outs q ∧
      .results (List.replicate n (⟨0, 1⟩, ⟨0, 2⟩)) ∈ outs := by
  have hbuf : n ≤ rxBufTuples := hn.le.trans (by decide)
  obtain ⟨outs, q, hrun, hobs, -⟩ := run_of_path
    (((Machine.Path.single (oneKey_configure hbuf)).trans (.single (oneKey_inner hpos))).trans
      (.single (oneKey_outer hbuf))) default
  have hmem : KOut.results (List.replicate n (⟨0, 1⟩, ⟨0, 2⟩)) ∈ outs.flatMap TxFrame.obs := by
    rw [hobs]
    refine List.mem_append_right _ (List.mem_append_right _ ?_)
    exact results_mem_graceFinish hpos hn
  obtain ⟨f, hf, hfobs⟩ := List.mem_flatMap.mp hmem
  refine ⟨outs, q, hrun, ?_⟩
  cases f with
  | results pairs =>
    obtain ⟨rfl⟩ := List.mem_singleton.mp hfobs
    exact hf
  | _ => simp [TxFrame.obs] at hfobs

end OneKey

/-- A partition with more than `limit` matches takes as many outer rows, and an inner one. -/
theorem Crowded.rows {limit : Nat} {L : Log} (h : Crowded limit L) :
    6 * (limit + 2) ≤ tidBytesIn L := by
  obtain ⟨pre, p, K, outerSlotW, inner, outer, rfl, -, -, -, -, -, -, q, -, -, hlong⟩ := h
  have houter : limit < outer.flatten.length := by
    refine hlong.trans_le ((length_join_le _ _).trans ?_)
    exact (List.length_filter_le _ _).trans (List.length_map _).le
  have hinner : 0 < inner.flatten.length := by
    rw [List.length_pos_iff]
    intro hnil
    have hempty : phaseRows (KeyType.ofCode p.keyType) inner = [] := by rw [phaseRows, hnil]; rfl
    rw [hempty, partJoin, show partRows _ q [] = [] from rfl, join_empty_inner] at hlong
    exact absurd hlong (Nat.not_lt_zero _)
  rw [tidBytesIn_append, tidBytesIn_append, tidBytesIn_phaseReads, tidBytesIn_phaseReads]
  omega

/-! ## The stream and the framer -/

section Stream

variable {b : Build} {s : Session} {ins : Log} {outs : List TxFrame} {q : KProc Session}

theorem wellFormed_of_run (hrun : Runs (hashJoinKernel b s) ins outs q) :
    ∀ f ∈ outs, f.WellFormed := by
  intro f hf
  obtain ⟨-, -, hwf, -⟩ := 
    (hashJoinKernel_always s le_rfl not_overrun_nil ins outs q hrun).outputs f hf
  exact hwf

/-- The packets of the stream are the frames. -/
theorem split_axis (h : ∀ f ∈ outs, f.WellFormed) :
    split AxisByte.last (outs.flatMap TxFrame.axis) = outs.map TxFrame.axis := by
  rw [List.flatMap_def]
  refine split_flatten fun p hp => ?_
  obtain ⟨f, hf, rfl⟩ := List.mem_map.mp hp
  exact TxFrame.isPacket (h f hf)

theorem frames_fit (hrun : Runs (hashJoinKernel b s) ins outs q)
    (h : ∀ L, L <+: ins → ¬ Crowded maxDatagramPairs L) :
    ∀ f ∈ outs, f.axis.length ≤ maxTxPayloadBytes := by
  intro f hf
  have hlimit : resultFlushPairs ≤ maxDatagramPairs := by decide
  obtain ⟨L, hL, hwf, hpairs⟩ :=
    (hashJoinKernel_always s hlimit not_overrun_nil ins outs q hrun).outputs f hf
  exact TxFrame.length_axis_le hwf fun pairs heq => (hpairs pairs heq).resolve_right (h L hL)

/-- **Without a crowded partition every packet fits a datagram, and the framer never waits for
room**: on any bytes, in every session, with any gaps and stalls between kernel, framer and
network. -/
theorem datagrams_fit (hrun : Runs (hashJoinKernel b s) ins outs q)
    (h : ∀ L, L <+: ins → ¬ Crowded maxDatagramPairs L) :
    (∀ d ∈ split AxisByte.last (outs.flatMap TxFrame.axis), d.length ≤ maxTxPayloadBytes) ∧
      ∀ (p : UdpIpv4Tx.Params) (r : UdpIpv4Tx.Regs) (cycles : List UdpIpv4Tx.Pins),
        p.maxPayloadBytes = maxTxPayloadBytes → r.state = .idle →
        (∀ i ∈ cycles, i.rstN = true) →
        Clocked.trace (UdpIpv4Tx.step p) (UdpIpv4Tx.accepted p) r cycles <+:
          outs.flatMap TxFrame.axis →
        ¬ UdpIpv4Tx.Blocked p (Clocked.run (UdpIpv4Tx.step p) r cycles) := by
  have hwf := wellFormed_of_run hrun
  have hfit := frames_fit hrun h
  constructor
  · intro d hd
    rw [split_axis hwf] at hd
    obtain ⟨f, hf, rfl⟩ := List.mem_map.mp hd
    exact hfit f hf
  · intro p r cycles hp hr hrst htaken
    rw [List.flatMap_def] at htaken
    refine UdpIpv4Tx.not_blocked (by rw [hp]; decide) (by rw [hp]; decide) hr hrst ?_ htaken
    intro d hd
    obtain ⟨f, hf, rfl⟩ := List.mem_map.mp hd
    exact ⟨TxFrame.isPacket (hwf f hf), by rw [hp]; exact hfit f hf⟩

/-- A session with 122 matches sends them in one frame, and the framer takes it. -/
theorem datagrams_fit_oneKey :
    ∃ outs q, Runs (hashJoinKernel (.csim {}) default) (oneKeyReads 122) outs q ∧
      .results (List.replicate 122 (⟨0, 1⟩, ⟨0, 2⟩)) ∈ outs ∧
      (∀ d ∈ split AxisByte.last (outs.flatMap TxFrame.axis), d.length ≤ maxTxPayloadBytes) ∧
      ∀ (r : UdpIpv4Tx.Regs) (cycles : List UdpIpv4Tx.Pins), r.state = .idle →
        (∀ i ∈ cycles, i.rstN = true) →
        Clocked.trace (UdpIpv4Tx.step {}) (UdpIpv4Tx.accepted {}) r cycles <+:
          outs.flatMap TxFrame.axis →
        ¬ UdpIpv4Tx.Blocked {} (Clocked.run (UdpIpv4Tx.step {}) r cycles) := by
  obtain ⟨outs, q, hrun, hmem⟩ := oneKey_run (n := 122) (by decide) (by decide)
  have hroom : ∀ L, L <+: oneKeyReads 122 → ¬ Crowded maxDatagramPairs L := by
    intro L hL hcrowded
    have hrows := hcrowded.rows
    have hle : tidBytesIn L ≤ tidBytesIn (oneKeyReads 122) := hL.sublist.countP_le
    have hall : tidBytesIn (oneKeyReads 122) = 6 * 123 := by
      rw [oneKeyReads, tidBytesIn_append, tidBytesIn_append, tidBytesIn_data, tidBytesIn_data,
        oneKeyOuter, List.length_replicate]
      rfl
    rw [maxDatagramPairs] at hrows
    omega
  obtain ⟨hfit, hfree⟩ := datagrams_fit hrun hroom
  exact ⟨outs, q, hrun, hmem, hfit, fun r cycles => hfree {} r cycles rfl⟩

/-- **A frame that does not fit blocks the framer for good.** -/
theorem long_frame_blocks (hwf : ∀ f ∈ outs, f.WellFormed) {p : UdpIpv4Tx.Params}
    (hp : p.maxPayloadBytes = maxTxPayloadBytes) {r : UdpIpv4Tx.Regs} (hr : r.state = .idle)
    (hlong : ∃ f ∈ outs, maxTxPayloadBytes < f.axis.length) :
    ∃ cycles, (∀ i ∈ cycles, i.rstN = true) ∧
      Clocked.trace (UdpIpv4Tx.step p) (UdpIpv4Tx.accepted p) r cycles <+:
        outs.flatMap TxFrame.axis ∧
      ∀ more : List UdpIpv4Tx.Pins, (∀ i ∈ more, i.rstN = true) →
        UdpIpv4Tx.Blocked p (Clocked.run (UdpIpv4Tx.step p) r (cycles ++ more)) := by
  -- the first frame that is too long; those in front of it are taken
  obtain ⟨pre, f, post, rfl, hpre, hf⟩ : ∃ pre f post, outs = pre ++ f :: post ∧
      (∀ g ∈ pre, g.axis.length ≤ maxTxPayloadBytes) ∧ maxTxPayloadBytes < f.axis.length := by
    let long : TxFrame → Bool := fun f => maxTxPayloadBytes < f.axis.length
    have hsome : (outs.find? long).isSome := List.find?_isSome.mpr (by simpa [long] using hlong)
    obtain ⟨f, hfind⟩ := Option.isSome_iff_exists.mp hsome
    obtain ⟨hf, pre, post, hsplit, hpre⟩ := List.find?_eq_some_iff_append.mp hfind
    exact ⟨pre, f, post, hsplit, by simpa [long] using hpre, by simpa [long] using hf⟩
  have hmax : 0 < p.maxPayloadBytes := by rw [hp]; decide
  have hmax' : p.maxPayloadBytes < 2 ^ 16 := by rw [hp]; decide
  have hpackets : ∀ d ∈ pre.map TxFrame.axis,
      IsPacket AxisByte.last d ∧ d.length ≤ p.maxPayloadBytes := by
    intro d hd
    obtain ⟨g, hg, rfl⟩ := List.mem_map.mp hd
    exact ⟨TxFrame.isPacket (hwf g (List.mem_append_left _ hg)), by rw [hp]; exact hpre g hg⟩
  obtain ⟨c₁, hrst₁, hidle, htrace₁⟩ := UdpIpv4Tx.takes_packets hmax' hr hpackets
  obtain ⟨c₂, hrst₂, hblocked, htrace₂⟩ := UdpIpv4Tx.blocks hmax hmax' hidle
    (TxFrame.isPacket (hwf f (by simp))) (by rw [hp]; exact hf)
  refine ⟨c₁ ++ c₂, fun i hi => (List.mem_append.mp hi).elim (hrst₁ i) (hrst₂ i), ?_, ?_⟩
  · rw [Clocked.trace_append, htrace₁, htrace₂, List.flatMap_append, List.flatMap_cons,
      List.flatMap_def, List.prefix_append_right_inj]
    exact (List.take_prefix _ _).trans (List.prefix_append _ _)
  · intro more hmore
    rw [Clocked.run_append, Clocked.run_append]
    exact (UdpIpv4Tx.blocked_forever hmore hblocked).1

end Stream

/-- **A session of Algorithm B with 123 matches in one partition blocks the framer.** -/
theorem crowded_session_blocks :
    ∃ ins outs q, Runs (hashJoinKernel (.csim {}) default) ins outs q ∧
      (∃ d ∈ split AxisByte.last (outs.flatMap TxFrame.axis), maxTxPayloadBytes < d.length) ∧
      ∀ r : UdpIpv4Tx.Regs, r.state = .idle → ∃ cycles, (∀ i ∈ cycles, i.rstN = true) ∧
        Clocked.trace (UdpIpv4Tx.step {}) (UdpIpv4Tx.accepted {}) r cycles <+:
          outs.flatMap TxFrame.axis ∧
        ∀ more : List UdpIpv4Tx.Pins, (∀ i ∈ more, i.rstN = true) →
          UdpIpv4Tx.Blocked {} (Clocked.run (UdpIpv4Tx.step {}) r (cycles ++ more)) := by
  obtain ⟨outs, q, hrun, hmem⟩ := oneKey_run (n := 123) (by decide) (by decide)
  have hwf := wellFormed_of_run hrun
  have hlong : maxTxPayloadBytes <
      (TxFrame.results (List.replicate 123 (⟨0, 1⟩, ⟨0, 2⟩))).axis.length := by
    rw [TxFrame.length_axis_results (hwf _ hmem).1, List.length_replicate]
    decide
  refine ⟨_, outs, q, hrun, ⟨_, ?_, hlong⟩, fun r hr => ?_⟩
  · rw [split_axis hwf]
    exact List.mem_map_of_mem hmem
  · exact long_frame_blocks hwf rfl hr ⟨_, hmem, hlong⟩

end FpgaHashJoin
