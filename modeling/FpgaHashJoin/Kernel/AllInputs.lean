import FpgaHashJoin.Kernel.GraceStorage

/-!
# The kernel on arbitrary bytes

Every run of the kernel, whatever arrives. Two things can be said about the bytes that were
read when something goes wrong. An access is out of bounds exactly when a session of Algorithm
A has read one tuple more of a DATA frame than the receive buffers hold. A RESULT frame with
many pairs is preceded by a complete session of Algorithm B with a partition that has as many
matches.
-/

namespace FpgaHashJoin

open Process EquiJoin GraceHashEngine KState LittleEndian

/-- The last CONFIGURE selected the algorithm. -/
def InSession (algorithm : AlgorithmType) (L : Log) : Prop :=
  ∃ pre p mid, L = pre ++ (HostFrame.configure p).reads ++ mid ∧
    p.algorithm = algorithm.code ∧ ∀ e ∈ mid, e.1 ≠ .config

/-- A session of Algorithm A has just read the first tuple of a frame for which the receive
buffers have no entry. -/
def Overrun (L : Log) : Prop :=
  ∃ pre type n w, ∃ ts : List InputTuple,
    L = pre ++ (.msgType, some type) :: (tagged .count (bytes16 n) ++ ts.flatMap (tupleReads w)) ∧
      InSession .algorithmA pre ∧ ts.length = rxBufTuples + 1 ∧ ts.length ≤ n.toNat

/-- The last thing read is a whole session of Algorithm B: both phases have brought the rows
of the CONFIGURE, or as many frames as they take, and all rows are stored. Some partition has
more than `limit` matches, and the inner rows of no partition up to it overflow the hash
table. -/
def Crowded (limit : Nat) (L : Log) : Prop :=
  ∃ pre p K outerSlotW inner outer,
    let w := KeyType.ofCode p.keyType
    let c := p.conf K outerSlotW
    L = pre ++ (HostFrame.configure p).reads ++ phaseReads .inner w inner ++
        phaseReads .outer w outer ∧
      p.algorithm = AlgorithmType.algorithmB.code ∧
      checkConfigure p.algorithm p.innerCount.toNat p.outerCount.toNat = .ok (K, outerSlotW) ∧
      (innerSide c.innerTotal).Over w inner ∧ (outerSide c.outerTotal outerSlotW).Over w outer ∧
      partsFit c (innerSide c.innerTotal).maxPerSlot (phaseRows w inner) ∧
      partsFit c (outerSide c.outerTotal outerSlotW).maxPerSlot (phaseRows w outer) ∧
      ∃ q < K, (∀ q' ≤ q, LinearHashTable.fits (partRows c q' (phaseRows w inner))) ∧
        limit < (partJoin c (phaseRows w inner) (phaseRows w outer) q).length

/-- What is sent after the reads `L`. -/
def SendOk (limit : Nat) (L : Log) (f : TxFrame) : Prop :=
  f.WellFormed ∧ ∀ pairs, f = .results pairs → pairs.length ≤ limit ∨ Crowded limit L

theorem sendOk_error {limit : Nat} {L : Log} (e : UInt8) : SendOk limit L (.error e) :=
  ⟨trivial, nofun⟩

theorem sendOk_ack {limit : Nat} {L : Log} (p : StatusPayload) : SendOk limit L (.ack p) :=
  ⟨trivial, nofun⟩

/-- What holds in every run of a part of the kernel that starts after the reads `L`. -/
abbrev KAlways (limit : Nat) (L : Log) {α : Type} (p : KProc α) (Q : Log → α → Prop) : Prop :=
  Always Overrun (SendOk limit) L p Q

variable {limit : Nat} {L M : Log}

/-! ## Logs -/

section Logs

variable {algorithm algorithm' : AlgorithmType} {site : Site}

theorem InSession.append (h : InSession algorithm L) (hm : ∀ e ∈ M, e.1 ≠ .config) :
    InSession algorithm (L ++ M) := by
  obtain ⟨pre, p, mid, rfl, halg, hmid⟩ := h
  refine ⟨pre, p, mid ++ M, by simp, halg, ?_⟩
  intro e he
  rcases List.mem_append.mp he with he | he
  · exact hmid e he
  · exact hm e he

theorem InSession.configure {p : ConfigurePayload} (h : p.algorithm = algorithm.code) :
    InSession algorithm (L ++ (HostFrame.configure p).reads) :=
  ⟨L, p, [], by simp, h, by simp⟩

/-- The CONFIGURE payloads of a log. -/
def configs (L : Log) : Log := L.filter fun e => e.1 = .config

theorem InSession.configs_eq (h : InSession algorithm L) :
    ∃ pre p, configs L = pre ++ tagged .config (configureBytes p) ∧
      p.algorithm = algorithm.code := by
  obtain ⟨pre, p, mid, rfl, halg, hmid⟩ := h
  have hreads : configs (HostFrame.configure p).reads = tagged .config (configureBytes p) := rfl
  have hnone : configs mid = [] := by simpa [configs] using hmid
  refine ⟨configs pre, p, ?_, halg⟩
  calc configs (pre ++ (HostFrame.configure p).reads ++ mid)
      = configs pre ++ configs (HostFrame.configure p).reads ++ configs mid := by
        simp only [configs, List.filter_append]
    _ = configs pre ++ tagged .config (configureBytes p) := by
        rw [hreads, hnone, List.append_nil]

/-- The last CONFIGURE is unique. -/
theorem InSession.unique (h : InSession algorithm L) (h' : InSession algorithm' L) :
    algorithm.code = algorithm'.code := by
  obtain ⟨pre, p, heq, halg⟩ := h.configs_eq
  obtain ⟨pre', p', heq', halg'⟩ := h'.configs_eq
  obtain ⟨-, hpayload⟩ := List.append_inj' (heq.symm.trans heq') rfl
  have hcode : (some p.algorithm) = some p'.algorithm :=
    (Prod.mk.inj (List.cons.inj hpayload).1).2
  rw [← halg, ← halg', Option.some.inj hcode]

/-- The identifier bytes behind the last frame header. -/
def tidsSince (L : Log) : Nat := tidBytesIn (L.reverse.takeWhile fun e => e.1 ≠ .msgType)

theorem tidsSince_header {x : Option UInt8} (hM : ∀ e ∈ M, e.1 ≠ .msgType) :
    tidsSince (L ++ (.msgType, x) :: M) = tidBytesIn M := by
  have hrev : (L ++ (Site.msgType, x) :: M).reverse = M.reverse ++ (.msgType, x) :: L.reverse := by
    simp
  have htake : ∀ e ∈ M.reverse, (decide (e.1 ≠ .msgType)) = true := by
    simpa using hM
  rw [tidsSince, hrev, List.takeWhile_append_of_pos htake,
    List.takeWhile_cons_of_neg (by simp), List.append_nil]
  exact List.countP_reverse

theorem ne_msgType_of_mem_tupleReads (w : KeyType) (t : InputTuple) :
    ∀ e ∈ tupleReads w t, e.1 ≠ .msgType := by
  intro e he
  rcases List.mem_append.mp he with he | he <;> obtain ⟨v, -, rfl⟩ := List.mem_map.mp he <;> nofun

/-- The identifiers of a frame that is being read. -/
theorem tidsSince_frame {x : Option UInt8} {n : UInt16} {w : KeyType} {ts : List InputTuple}
    {R : Log} (hR : ∀ e ∈ R, e.1 ≠ .msgType) :
    tidsSince (L ++ (.msgType, x) ::
        (tagged .count (bytes16 n) ++ ts.flatMap (tupleReads w)) ++ R) =
      6 * ts.length + tidBytesIn R := by
  have hcount : tidBytesIn (tagged Site.count (bytes16 n)) = 0 := rfl
  rw [List.append_assoc, List.cons_append, tidsSince_header, tidBytesIn_append,
    tidBytesIn_append, hcount, tidBytesIn_tuples, Nat.zero_add]
  intro e he
  simp only [List.mem_append, List.mem_flatMap] at he
  rcases he with (he | ⟨t, -, he⟩) | he
  · obtain ⟨v, -, rfl⟩ := List.mem_map.mp he
    nofun
  · exact ne_msgType_of_mem_tupleReads w t e he
  · exact hR e he

theorem Overrun.tidsSince_eq (h : Overrun L) : tidsSince L = 6 * (rxBufTuples + 1) := by
  obtain ⟨pre, type, n, w, ts, rfl, -, hlen, -⟩ := h
  rw [← List.append_nil (pre ++ _), tidsSince_frame (by simp), hlen]
  rfl

theorem Overrun.session (h : Overrun L) : InSession .algorithmA L := by
  obtain ⟨pre, type, n, w, ts, rfl, hpre, -⟩ := h
  exact hpre.append (ne_config_of_mem_frame type n w ts)

theorem tupleReads_snoc (w : KeyType) (t : InputTuple) :
    ∃ R x, tupleReads w t = R ++ [(.tid, x)] :=
  ⟨(tupleReads w t).dropLast, some (t.tid.offno >>> 8).toUInt8, by cases w <;> rfl⟩

/-- Overrunning the buffers takes the last byte of a tuple. -/
theorem Overrun.snoc (h : Overrun L) : ∃ R x, L = R ++ [(.tid, x)] := by
  obtain ⟨pre, type, n, w, ts, rfl, -, hlen, -⟩ := h
  have hne : ts ≠ [] := List.ne_nil_of_length_pos (by omega)
  obtain ⟨R, x, hlast⟩ := tupleReads_snoc w (ts.getLast hne)
  refine ⟨pre ++ (.msgType, some type) :: (tagged .count (bytes16 n) ++
    (ts.dropLast.flatMap (tupleReads w) ++ R)), x, ?_⟩
  nth_rewrite 1 [← List.dropLast_append_getLast hne]
  rw [List.flatMap_append, List.flatMap_singleton, hlast]
  simp

theorem harmless_overrun (hsite : site ≠ .tid) : Harmless Overrun site := by
  intro M x h
  obtain ⟨R, y, heq⟩ := h.snoc
  obtain ⟨-, hlast⟩ := List.append_inj' heq rfl
  exact hsite (Prod.mk.inj (List.cons.inj hlast).1).1

theorem not_overrun_nil : ¬ Overrun [] := by
  intro h
  obtain ⟨R, x, heq⟩ := h.snoc
  exact absurd heq.symm (by simp)

/-- The receive buffers are not used in a session of Algorithm B. -/
theorem InSession.quiet (h : InSession .algorithmB L) : Quiet Overrun L := by
  intro M hM hover
  exact absurd ((h.append hM).unique hover.session) (by decide)

/-- While a frame is read, the buffers are overrun by the whole of the tuple behind their last
entry and by nothing less. -/
theorem guarded_tuple {α : Type} {type : UInt8} {n : UInt16} {w : KeyType}
    {ts : List InputTuple} {t : InputTuple} {p : KProc α} (hts : ts.length ≤ rxBufTuples)
    (hp : ts.length = rxBufTuples → p = .fault) :
    Guarded Overrun (L ++ (.msgType, some type) ::
      (tagged .count (bytes16 n) ++ ts.flatMap (tupleReads w))) (tupleReads w t) p := by
  intro R hR hne hover
  obtain ⟨S, hS⟩ := hR
  have hall := congrArg tidBytesIn hS
  have htids := hover.tidsSince_eq
  have hmsg : ∀ e ∈ R, e.1 ≠ .msgType := fun e he =>
    ne_msgType_of_mem_tupleReads w t e (hS ▸ List.mem_append_left S he)
  rw [tidsSince_frame hmsg] at htids
  rw [tidBytesIn_append, tidBytesIn_tupleReads] at hall
  have hrest : tidBytesIn S = 0 := by omega
  -- the last byte of a tuple belongs to its identifier
  obtain rfl : S = [] := by
    by_contra hSne
    obtain ⟨R', x, hlast⟩ := tupleReads_snoc w t
    have hmem : (Site.tid, x) ∈ S := by
      have hget : (R ++ S).getLast? = some (.tid, x) := by rw [hS, hlast]; simp
      rw [List.getLast?_append_of_ne_nil _ hSne] at hget
      exact List.mem_of_getLast? hget
    have hnone := List.countP_eq_zero.mp hrest _ hmem
    exact hnone (by simp)
  exact ⟨by simpa using hS, hp (by omega)⟩

end Logs

/-! ## Reading -/

section Reading

variable {α : Type} {Q : Log → α → Prop}

theorem emitDebug_then {b : Build} {level : DbgLevel} {code : DbgCode} {value : UInt32}
    {k : Unit → KProc α} (h : KAlways limit L (k ()) Q) :
    KAlways limit L (emitDebug b level code value >>= k) Q := by
  unfold emitDebug
  split
  · exact Always.bind (.put ⟨trivial, nofun⟩ rfl) fun M _ (hM : M = L) => hM ▸ h
  · exact h

theorem when_emitDebug_then {c : Prop} [Decidable c] {b : Build} {level : DbgLevel}
    {code : DbgCode} {value : UInt32} {k : Unit → KProc α} (h : KAlways limit L (k ()) Q) :
    KAlways limit L (Proc.when c (emitDebug b level code value) >>= k) Q := by
  unfold Proc.when
  split
  · exact emitDebug_then h
  · exact h

/-- The first byte of a frame, or the watchdog. -/
theorem rxByteGuarded_then {b : Build} {sessionId : UInt8} {k : Option UInt8 → KProc α}
    (hnone : KAlways limit (L ++ [(.msgType, none)]) (k none) Q)
    (hsome : ∀ v, KAlways limit (L ++ [(.msgType, some v)]) (k (some v)) Q) :
    KAlways limit L (rxByteGuarded b sessionId >>= k) Q := by
  have hcalm : Harmless Overrun .msgType := harmless_overrun nofun
  refine .poll (fun x hover => absurd hover (hcalm L x)) fun x => ?_
  cases x with
  | none =>
    change KAlways limit _ ((do
      emitDebug b .warn .reset rxWatchdogCycles
      Proc.put (.ack
        { phase := Phase.idle.code, sessionId, credit := UInt16.ofNat rxCreditTuples })
      return none) >>= k) Q
    simp only [bind_assoc, pure_bind]
    exact emitDebug_then (put_then ⟨trivial, nofun⟩ hnone)
  | some v => exact hsome v

/-- A part that reads nothing is known by what it sends. -/
theorem Sends.always {p : KProc α} {os : List KOut} {a : α} (h : Sends p os a)
    (hok : ∀ pairs, KOut.results pairs ∈ os → SendOk limit L (.results pairs)) (hQ : Q L a) :
    KAlways limit L p Q := by
  obtain ⟨outs, hrun, rfl⟩ := h
  refine Always.of_runs hrun (fun f hf => ?_) hQ
  cases f with
  | results pairs => exact hok pairs (List.mem_flatMap.mpr ⟨_, hf, List.mem_cons_self⟩)
  | _ => exact ⟨trivial, nofun⟩

/-- The count in a frame header. -/
theorem rxCount_then {k : UInt16 → KProc α}
    (h : ∀ n, KAlways limit (L ++ tagged .count (bytes16 n)) (k n) Q) :
    KAlways limit L (rxU16 .count >>= k) Q := by
  have hcalm : Harmless Overrun .count := harmless_overrun nofun
  exact rxU16_then (fun _ => .of_harmless hcalm _) h

end Reading

/-! ## Algorithm A -/

/-- Between two frames of a session of Algorithm A. -/
structure LinearInv (M : Log) (s : Session) : Prop where
  session : InSession .algorithmA M
  room : s.resultBufCnt < resultFlushPairs

section Linear

variable {b : Build} {innerReceived : Nat}

theorem LinearInv.append {s : Session} (h : LinearInv L s) (hm : ∀ e ∈ M, e.1 ≠ .config) :
    LinearInv (L ++ M) s :=
  ⟨h.session.append hm, h.room⟩

/-- **A frame leaves the receive buffers with its first tuple for which they have no entry.** -/
theorem rxBatch_always {s : Session} {type : UInt8} {n : UInt16} (h : LinearInv L s) :
    KAlways limit (L ++ [(.msgType, some type)] ++ tagged .count (bytes16 n))
      (rxBatch n.toNat s) fun M s' => LinearInv M s' ∧ n.toNat ≤ rxBufTuples := by
  -- the tuples that have been read follow the header
  let w := KeyType.ofCode s.keytype
  let I : Nat → Log → Session → Prop := fun i M s' =>
    i ≤ rxBufTuples ∧ s'.resultBufCnt = s.resultBufCnt ∧ s'.keytype = s.keytype ∧
      ∃ ts : List InputTuple, ts.length = i ∧ M = L ++ (.msgType, some type) ::
        (tagged .count (bytes16 n) ++ ts.flatMap (tupleReads w))
  have hloop : KAlways limit (L ++ [(.msgType, some type)] ++ tagged .count (bytes16 n))
      (rxBatch n.toNat s) (I n.toNat) := by
    refine Always.forRange I ⟨Nat.zero_le _, rfl, rfl, [], rfl, by simp⟩ ?_
    rintro i hi M s' ⟨hle, hcnt, hkey, ts, rfl, rfl⟩
    refine rxTuple_then (fun t => ?_) fun t => ?_
    · rw [hkey]
      refine guarded_tuple hle fun hfull => ?_
      rw [Proc.require, if_neg (by omega)]
      rfl
    rw [hkey]
    refine require_then (fun hover => ?_) fun hroom => .pure ?_
    · refine ⟨L, type, n, w, ts ++ [t], by simp [w], h.session, ?_, ?_⟩
      · rw [List.length_append, List.length_singleton]
        omega
      · rw [List.length_append, List.length_singleton]
        exact hi
    · exact ⟨by omega, hcnt, rfl, ts ++ [t], by simp, by simp [w]⟩
  refine hloop.mono ?_
  rintro M s' ⟨hn, hcnt, -, ts, -, rfl⟩
  refine ⟨⟨h.session.append (ne_config_of_mem_frame type n w ts), ?_⟩, hn⟩
  rw [hcnt]
  exact h.room

theorem innerBatch_always {v : BuildVars} {n i : Nat} (hi : i < n) (hn : n ≤ rxBufTuples)
    (h : LinearInv L v.s) : KAlways limit L (innerBatch v i) fun M w => LinearInv M w.s := by
  unfold innerBatch
  split
  · exact .pure h
  refine require_then (fun hover => absurd (by omega) hover) fun _ => ?_
  dsimp only
  split
  · exact put_then (sendOk_error _) (.pure ⟨h.session, h.room⟩)
  · exact .pure ⟨h.session, h.room⟩

theorem buildAck_always {v : BuildVars} (h : LinearInv L v.s) :
    KAlways limit L (buildAck v) fun M w => LinearInv M w.s := by
  unfold buildAck
  split
  · exact .pure h
  dsimp only
  split
  · exact put_then ⟨trivial, nofun⟩ (.pure ⟨h.session, h.room⟩)
  · exact .pure ⟨h.session, h.room⟩

/-- **One iteration of the build loop.** -/
theorem buildBody_always {v : BuildVars} (h : LinearInv L v.s) :
    KAlways limit L (buildBody b v) fun M r =>
      Sum.elim (fun w => LinearInv M w.s) (fun w => LinearInv M w.s) r := by
  unfold buildBody
  split
  · exact .pure h
  split
  · exact .pure h
  unfold buildFrame
  refine rxByteGuarded_then (.pure ?_) fun type => ?_
  · exact ⟨h.session.append (by simp), h.room⟩
  refine rxCount_then fun count => ?_
  have h' : LinearInv (L ++ [(.msgType, some type)] ++ tagged .count (bytes16 count)) v.s :=
    (h.append (by simp)).append (by simp [tagged])
  dsimp only
  split
  · exact put_then (sendOk_ack _) (.pure ⟨h'.session, h'.room⟩)
  split
  · exact put_then (sendOk_error _) (.pure ⟨h'.session, h'.room⟩)
  refine Always.bind (rxBatch_always ⟨h.session, h.room⟩) ?_
  rintro M s ⟨hs, hn⟩
  unfold buildTuples
  refine when_emitDebug_then (Always.bind (Q := fun M (w : BuildVars) => LinearInv M w.s) ?_ ?_)
  · exact Always.forRange (fun _ M (w : BuildVars) => LinearInv M w.s) hs fun i hi M w hw =>
      innerBatch_always hi hn hw
  · exact fun M w hw => Always.bind (buildAck_always hw) fun M w hw =>
      .pure ⟨hw.session, hw.room⟩

/-- Full batches fit a datagram, and a batch has at least one pair. -/
theorem sendOk_results {s : Session} (hlimit : resultFlushPairs ≤ limit)
    (hpos : s.resultBufCnt ≠ 0) (hcnt : s.resultBufCnt ≤ resultFlushPairs) :
    SendOk limit L (.results (bufferedPairs s.resultBuf s.resultBufCnt)) := by
  have hlen : (bufferedPairs s.resultBuf s.resultBufCnt).length = s.resultBufCnt :=
    length_bufferedPairs _ _
  have hflush : resultFlushPairs ≤ txBufSize := by decide
  refine ⟨⟨fun hnil => ?_, by omega⟩, ?_⟩
  · rw [hnil] at hlen
    exact hpos hlen.symm
  · rintro pairs heq
    cases heq
    exact .inl (by omega)

theorem flushResultBatch_always {v : ProbeVars} (hlimit : resultFlushPairs ≤ limit)
    (hL : InSession .algorithmA L) (hcnt : v.s.resultBufCnt ≤ resultFlushPairs) :
    KAlways limit L (flushResultBatch v) fun M w => LinearInv M w.s := by
  have hpos : 0 < resultFlushPairs := by decide
  unfold flushResultBatch
  split
  next hzero => exact .pure ⟨hL, by omega⟩
  next hne => exact put_then (sendOk_results hlimit hne hcnt) (.pure ⟨hL, hpos⟩)

theorem probeHit_always {v : ProbeVars} {p : ResultPair} (hlimit : resultFlushPairs ≤ limit)
    (h : LinearInv L v.s) : KAlways limit L (probeHit v p) fun M w => LinearInv M w.s := by
  have hroom := h.room
  have hflush : resultFlushPairs ≤ txBufSize := by decide
  have hstored : (v.storePair p).s.resultBufCnt = v.s.resultBufCnt + 1 := rfl
  unfold probeHit
  refine require_then (fun hover => absurd (by omega) hover) fun _ => ?_
  refine Always.bind (Q := fun M w => LinearInv M w.s) ?_ fun M w hw => .pure ⟨hw.session, hw.room⟩
  unfold flushIfFull
  split
  · exact flushResultBatch_always hlimit h.session (by omega)
  · exact .pure ⟨h.session, by omega⟩

theorem outerBatch_always {v : ProbeVars} {n i : Nat} (hlimit : resultFlushPairs ≤ limit)
    (hi : i < n) (hn : n ≤ rxBufTuples) (h : LinearInv L v.s) :
    KAlways limit L (outerBatch b v i) fun M w => LinearInv M w.s := by
  unfold outerBatch
  refine require_then (fun hover => absurd (by omega) hover) fun _ => ?_
  dsimp only
  refine when_emitDebug_then ?_
  split
  · exact .pure ⟨h.session, h.room⟩
  · exact probeHit_always hlimit ⟨h.session, h.room⟩

theorem probeDone_always {v : ProbeVars} (h : LinearInv L v.s) :
    KAlways limit L (probeDone b innerReceived v) fun M w => LinearInv M w.s := by
  unfold probeDone
  exact put_then ⟨trivial, nofun⟩ (put_then ⟨trivial, nofun⟩ (.pure ⟨h.session, h.room⟩))

theorem probeAck_always {v : ProbeVars} (h : LinearInv L v.s) :
    KAlways limit L (probeAck v) fun M w => LinearInv M w.s := by
  unfold probeAck
  dsimp only
  split
  · exact put_then ⟨trivial, nofun⟩ (.pure ⟨h.session, h.room⟩)
  · exact .pure ⟨h.session, h.room⟩

theorem probeTuples_always {v : ProbeVars} {count : UInt16} (hlimit : resultFlushPairs ≤ limit)
    (hn : count.toNat ≤ rxBufTuples) (h : LinearInv L v.s) :
    KAlways limit L (probeTuples b innerReceived count v) fun M r =>
      Sum.elim (fun w => LinearInv M w.s) (fun w => LinearInv M w.s) r := by
  unfold probeTuples
  refine when_emitDebug_then (Always.bind (Q := fun M (w : ProbeVars) => LinearInv M w.s) ?_ ?_)
  · exact Always.forRange (fun _ M (w : ProbeVars) => LinearInv M w.s) h fun i hi M w hw =>
      outerBatch_always hlimit (by omega) hn hw
  intro M w hw
  split
  · refine Always.bind (flushResultBatch_always hlimit hw.session hw.room.le) ?_
    exact fun M w hw => Always.bind (probeDone_always hw) fun M w hw => .pure ⟨hw.session, hw.room⟩
  · exact Always.bind (probeAck_always hw) fun M w hw => .pure ⟨hw.session, hw.room⟩

/-- **One iteration of the probe loop.** -/
theorem probeBody_always {v : ProbeVars} (hlimit : resultFlushPairs ≤ limit)
    (h : LinearInv L v.s) :
    KAlways limit L (probeBody b innerReceived v) fun M r =>
      Sum.elim (fun w => LinearInv M w.s) (fun w => LinearInv M w.s) r := by
  unfold probeBody
  split
  · exact .pure h
  split
  · exact .pure h
  unfold probeFrame
  refine rxByteGuarded_then (.pure ?_) fun type => ?_
  · exact ⟨h.session.append (by simp), h.room⟩
  refine rxCount_then fun count => ?_
  have h' : LinearInv (L ++ [(.msgType, some type)] ++ tagged .count (bytes16 count)) v.s :=
    (h.append (by simp)).append (by simp [tagged])
  dsimp only
  split
  · refine Always.bind (flushResultBatch_always hlimit h'.session h'.room.le) fun M w hw => ?_
    exact put_then (sendOk_ack _) (.pure ⟨hw.session, hw.room⟩)
  split
  · exact put_then (sendOk_error _) (.pure ⟨h'.session, h'.room⟩)
  refine Always.bind (rxBatch_always ⟨h.session, h.room⟩) ?_
  rintro M s ⟨hs, hn⟩
  exact probeTuples_always hlimit hn hs

theorem linearSession_always {s : Session} (hlimit : resultFlushPairs ≤ limit)
    (h : LinearInv L s) : KAlways limit L (linearSession b s) fun _ _ => True := by
  unfold linearSession
  refine Always.bind (Q := fun M w => LinearInv M w.s) ?_ fun M v hv => ?_
  · exact Always.iter (fun M w => LinearInv M w.s) ⟨h.session, h.room⟩ fun M w hw =>
      buildBody_always hw
  unfold linearProbe
  split
  · exact .pure trivial
  refine emitDebug_then (Always.bind (Q := fun M w => LinearInv M w.s) ?_ fun M w _ =>
    .pure trivial)
  exact Always.iter (fun M w => LinearInv M w.s) ⟨hv.session, hv.room⟩ fun M w hw =>
    probeBody_always hlimit hw

end Linear

/-! ## Algorithm B -/

section Grace

variable {side : Side} {c : Conf} {keytype : UInt8} {v : PartitionVars} {ddr2 : Nat → Int64}
  {rows : List InputTuple}

/-! The join -/

/-- A RESULT frame holds pairs of a single partition, and the partitions up to it have been
built. -/
theorem results_mem_joinParts {inner outer : List InputTuple} {ps : List Nat}
    {pairs : List ResultPair} (h : KOut.results pairs ∈ (joinParts c inner outer ps).1) :
    ∃ before p after, ps = before ++ p :: after ∧
      (∀ q ∈ before ++ [p], LinearHashTable.fits (partRows c q inner)) ∧
      pairs ∈ Batching.batches txBufSize (partJoin c inner outer p) := by
  induction ps with
  | nil => cases h
  | cons p ps ih =>
    rw [joinParts] at h
    split at h
    next hfits =>
      rcases List.mem_append.mp h with h | h
      · obtain ⟨f, hf, heq⟩ := List.mem_map.mp h
        cases heq
        exact ⟨[], p, ps, rfl, by simpa using hfits, hf⟩
      · obtain ⟨before, q, after, rfl, hbuilt, hmem⟩ := ih h
        refine ⟨p :: before, q, after, rfl, fun q' hq' => ?_, hmem⟩
        rcases List.mem_cons.mp hq' with rfl | hq'
        · exact hfits
        · exact hbuilt q' hq'
    next => simp at h

/-- In the order of the join loop, the partitions up to `p` are the smaller ones. -/
theorem mem_of_range_split {K p : Nat} {before after : List Nat}
    (h : List.range K = before ++ p :: after) {q : Nat} (hq : q ≤ p) : q ∈ before ++ [p] := by
  have hp : p < K := List.mem_range.mp (h ▸ by simp)
  have hsorted : (before ++ p :: after).Pairwise (· < ·) := h ▸ List.pairwise_lt_range
  have hmem : q ∈ before ++ p :: after := h ▸ List.mem_range.mpr (hq.trans_lt hp)
  rcases List.mem_append.mp hmem with hmem | hmem
  · exact List.mem_append_left _ hmem
  rcases List.mem_cons.mp hmem with rfl | hmem
  · simp
  · have hlt := (List.pairwise_cons.mp (List.pairwise_append.mp hsorted).2.1).1 q hmem
    omega

theorem joinAllPartitions_always {p : ConfigurePayload} {K outerSlotW : Nat}
    {inner outer : List (List InputTuple)} {g : GraceHashEngine} {ht : LinearHashTable}
    {resultBuf : Nat → ResultPair} (hB : p.algorithm = AlgorithmType.algorithmB.code)
    (hcheck : checkConfigure p.algorithm p.innerCount.toNat p.outerCount.toNat =
      .ok (K, outerSlotW))
    (hM : M = L ++ (HostFrame.configure p).reads ++
        phaseReads .inner (KeyType.ofCode p.keyType) inner ++
        phaseReads .outer (KeyType.ofCode p.keyType) outer)
    (hinner : (innerSide p.innerCount.toNat).Over (KeyType.ofCode p.keyType) inner)
    (houter : (outerSide p.outerCount.toNat outerSlotW).Over (KeyType.ofCode p.keyType) outer)
    (hl : Loaded (p.conf K outerSlotW) g ddr2 (phaseRows (KeyType.ofCode p.keyType) inner)
      (phaseRows (KeyType.ofCode p.keyType) outer)) :
    KAlways limit M (joinAllPartitions g K outerSlotW ddr2 ht resultBuf) fun _ _ => True := by
  obtain ⟨j, hsend, -⟩ := joinAllPartitions_sends hl ht resultBuf
  refine hsend.always (fun pairs hpairs => ?_) trivial
  obtain ⟨before, q, after, hsplit, hbuilt, hbatch⟩ := results_mem_joinParts hpairs
  obtain ⟨hpos, hle⟩ := Batching.batches_length (by decide) _ pairs hbatch
  refine ⟨⟨List.ne_nil_of_length_pos hpos, hle⟩, ?_⟩
  rintro _ heq
  cases heq
  by_cases hlong : pairs.length ≤ limit
  · exact .inl hlong
  · have hmatches := Batching.length_le_of_mem hbatch
    have hq : q < K := List.mem_range.mp (hsplit ▸ by simp)
    exact .inr ⟨L, p, K, outerSlotW, inner, outer, hM, hB, hcheck, hinner, houter,
      hl.inner.slots_fit, hl.outer.slots_fit, q, hq,
      fun q' hq' => hbuilt q' (mem_of_range_split hsplit hq'), by omega⟩

/-- **A session of Algorithm B, after its CONFIGURE.** -/
theorem graceSession_always {p : ConfigurePayload} {K outerSlotW : Nat} {s : Session}
    (hB : p.algorithm = AlgorithmType.algorithmB.code)
    (hcheck : checkConfigure p.algorithm p.innerCount.toNat p.outerCount.toNat =
      .ok (K, outerSlotW)) (h : GraceRep s (p.conf K outerSlotW)) :
    KAlways limit (L ++ (HostFrame.configure p).reads) (graceSession s) fun _ s' =>
      s'.algorithm = AlgorithmType.algorithmB.code := by
  have halg := h.conf.algorithm_eq
  have hquiet : Quiet Overrun (L ++ (HostFrame.configure p).reads) :=
    InSession.quiet (.configure hB)
  unfold graceSession buildInnerPartitions
  rw [h.conf.innerTotal, h.conf.K]
  refine Always.bind (buildPartitions_always (h.distributes h.innerValid)
    (fun _ _ => ⟨trivial, nofun⟩) (fun _ _ => ⟨trivial, nofun⟩) hquiet) ?_
  rintro M v ⟨R, rows, rfl, htaken, hinner, -⟩
  unfold graceProbe
  dsimp only
  split
  · exact .pure halg
  next herr =>
    rw [not_not.mp herr] at htaken
    obtain ⟨inner, rfl, rfl, hover⟩ := htaken
    let s₁ : Session :=
      { s with ddr2Buf := v.ddr2, grace := ⟨v.counts, fun _ => 0⟩ }.setStatus .probing
    have hs₁ : GraceRep s₁ (p.conf K outerSlotW) := ⟨h.conf, h.K_pos, h.K_le, h.memory⟩
    change KAlways limit _ (buildOuterPartitions s₁.outerTotal s₁.outerSlotW s₁.keytype s₁.K
      s₁.sessionId s₁.ddr2Buf s₁.grace.outerCounts >>= graceJoin s₁) _
    unfold buildOuterPartitions
    rw [hs₁.conf.outerTotal, hs₁.conf.outerSlotW, hs₁.conf.K]
    refine Always.bind (buildPartitions_always (hs₁.distributes hs₁.outerValid)
      (fun _ _ => ⟨trivial, nofun⟩) (fun _ _ => ⟨trivial, nofun⟩)
      (hquiet.append (ne_config_of_mem_phaseReads .inner _ inner))) ?_
    rintro M w ⟨R', rows', hM, htaken', houter, hbelow⟩
    unfold graceJoin
    dsimp only
    split
    · exact .pure halg
    next herr' =>
      rw [not_not.mp herr'] at htaken'
      obtain ⟨outer, rfl, rfl, hover'⟩ := htaken'
      rw [hs₁.conf.K, hs₁.conf.outerSlotW]
      refine Always.bind (joinAllPartitions_always hB hcheck hM hover hover'
        (hs₁.loaded hinner houter hbelow)) ?_
      intro M j _
      split
      · exact .pure halg
      · exact .pure halg

end Grace

/-! ## The kernel -/

section Kernel

variable {b : Build}

theorem done_always {s : Session} : KAlways limit L (done b s) fun _ _ => True := by
  unfold done
  refine emitDebug_then ?_
  dsimp only
  split
  · exact put_then ⟨trivial, nofun⟩ (put_then ⟨trivial, nofun⟩ (.pure trivial))
  · exact put_then ⟨trivial, nofun⟩ (.pure trivial)

theorem afterLinear_always {s : Session} :
    KAlways limit L (afterLinear b s) fun _ _ => True := by
  unfold afterLinear
  split
  · exact .pure trivial
  · exact done_always

/-- What CONFIGURE leaves: the session is over, or its configuration is the one read. -/
def Accepted (M : Log) (s : Session) : Prop :=
  s.sessionDone = true ∨ ∃ L p K outerSlotW algorithm,
    M = L ++ (HostFrame.configure p).reads ∧ p.algorithm = AlgorithmType.code algorithm ∧
      checkConfigure p.algorithm p.innerCount.toNat p.outerCount.toNat = .ok (K, outerSlotW) ∧
      s.Configured algorithm (p.conf K outerSlotW) ∧ s.resultBufCnt = 0

theorem configure_always {s : Session} :
    KAlways limit L (configure b s.init) Accepted := by
  unfold configure
  refine rxByteGuarded_then (.pure (.inl rfl)) fun type => rxCount_then fun count => ?_
  split
  · exact emitDebug_then (put_then ⟨trivial, nofun⟩ (.pure (.inl rfl)))
  split
  · exact put_then ⟨trivial, nofun⟩ (.pure (.inl rfl))
  next htype =>
    obtain ⟨rfl, rfl⟩ : type = MsgType.configure.code ∧ count = 1 := by
      constructor
      · by_contra h
        exact htype (.inl h)
      · by_contra h
        exact htype (.inr h)
    rw [← bind_pure rxConfigure, bind_assoc]
    refine rxConfigure_then (harmless_overrun nofun) fun p => ?_
    rw [pure_bind]
    have hlog : L ++ [(.msgType, some MsgType.configure.code)] ++ tagged .count (bytes16 1) ++
        tagged .config (configureBytes p) = L ++ (HostFrame.configure p).reads := by
      simp [HostFrame.reads, headerReads]
    rw [hlog]
    cases hcheck : checkConfigure p.algorithm p.innerCount.toNat p.outerCount.toNat with
    | error e =>
      obtain ⟨s', hsend, hdone⟩ := accept_fails (b := b) (s := s.init) hcheck
      exact hsend.always (by simp) (.inl hdone)
    | ok r =>
      obtain ⟨K, outerSlotW⟩ := r
      obtain ⟨algorithm, halg⟩ : ∃ a : AlgorithmType, p.algorithm = a.code := by
        rcases checkConfigure_algorithm hcheck with h | h
        · exact ⟨_, h⟩
        · exact ⟨_, h⟩
      obtain ⟨s', hsend, hconf, hcnt, -⟩ := accept_sends (b := b) (s := s) algorithm halg hcheck
      exact hsend.always (by simp)
        (.inr ⟨L, p, K, outerSlotW, algorithm, rfl, halg, hcheck, hconf, hcnt⟩)

theorem afterConfigure_always {s : Session} (hlimit : resultFlushPairs ≤ limit)
    (h : Accepted L s) : KAlways limit L (afterConfigure b s) fun _ _ => True := by
  unfold afterConfigure afterGrace
  rcases h with hdone | ⟨L, p, K, outerSlotW, algorithm, rfl, halg, hcheck, hconf, hcnt⟩
  · simp only [hdone, Bool.not_true, Bool.false_and, Bool.false_eq_true, if_false, pure_bind]
    exact afterLinear_always
  · have hrun := hconf.running
    have halg' := hconf.algorithm_eq
    cases algorithm with
    | algorithmA =>
      have hB : ¬ (!s.sessionDone && s.algorithm = AlgorithmType.algorithmB.code) = true := by
        rw [hrun, halg']
        decide
      have hA : (!s.sessionDone && s.algorithm = AlgorithmType.algorithmA.code) = true := by
        rw [hrun, halg']
        decide
      have hinv : LinearInv (L ++ (HostFrame.configure p).reads) s :=
        ⟨.configure halg, by rw [hcnt]; decide⟩
      simp only [if_neg hB, if_pos hA, pure_bind]
      exact Always.bind (linearSession_always hlimit hinv) fun M s _ => afterLinear_always
    | algorithmB =>
      have hB : (!s.sessionDone && s.algorithm = AlgorithmType.algorithmB.code) = true := by
        rw [hrun, halg']
        decide
      obtain ⟨hpos, hle, hmem⟩ := checkConfigure_grace (halg ▸ hcheck)
      simp only [if_pos hB]
      refine Always.bind (graceSession_always halg hcheck ⟨hconf, hpos, hle, hmem⟩) ?_
      intro M s' hs'
      have hA : ¬ (!s'.sessionDone && s'.algorithm = AlgorithmType.algorithmA.code) = true := by
        rw [hs']
        simp [AlgorithmType.code]
      simp only [if_neg hA, pure_bind]
      exact afterLinear_always

theorem session_always {s : Session} (hlimit : resultFlushPairs ≤ limit) :
    KAlways limit L (session b s) fun _ _ => True := by
  unfold session
  exact emitDebug_then (Always.bind configure_always fun M s hs =>
    afterConfigure_always hlimit hs)

/-- **Everything the kernel does, on any bytes.** -/
theorem hashJoinKernel_always (s : Session) (hlimit : resultFlushPairs ≤ limit) :
    KAlways limit [] (hashJoinKernel b s) fun _ _ => True := by
  refine Always.iter (fun _ _ => True) trivial fun M t _ => ?_
  unfold kernelBody
  refine Always.bind (session_always hlimit) fun M s _ => ?_
  split
  · exact .pure trivial
  · exact .pure trivial

end Kernel

/-! ## Array bounds -/

section Full

variable {ts : List InputTuple} (hlen : ts.length = rxBufTuples)

include hlen

end Full

end FpgaHashJoin
