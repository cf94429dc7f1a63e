import FpgaHashJoin.Kernel.Completion
import FpgaHashJoin.Kernel.Datagrams
import FpgaHashJoin.Process.Completed

/-!
# The timing record as a ledger

The kernel updates the counters of its timing record by hand, next to the reads and writes that
they count. The module compares them with what has really been read and sent: `Account.tally`
gives the counters that belong to a list of reads and a list of frames, and every function of an
Algorithm A session keeps the record equal to it.
-/

namespace FpgaHashJoin

open Process

/-! ## What is counted -/

/-- The frames of a type whose first byte has been read. -/
def framesIn (type : MsgType) (L : List (Site × Option UInt8)) : Nat :=
  L.count (.msgType, some type.code)

def bytesOut (O : List TxFrame) : Nat := (O.flatMap TxFrame.bytes).length

def TxFrame.isAck : TxFrame → Bool
  | .ack _ => true
  | _ => false

def TxFrame.isResults : TxFrame → Bool
  | .results _ => true
  | _ => false

def TxFrame.pairs : TxFrame → List ResultPair
  | .results pairs => pairs
  | _ => []

def acksOut (O : List TxFrame) : Nat := O.countP TxFrame.isAck

def resultsOut (O : List TxFrame) : Nat := O.countP TxFrame.isResults

def pairsOut (O : List TxFrame) : Nat := (O.flatMap TxFrame.pairs).length

section Counts

variable (L M : List (Site × Option UInt8)) (O P : List TxFrame) (type : MsgType)

@[simp] theorem framesIn_append : framesIn type (L ++ M) = framesIn type L + framesIn type M :=
  List.count_append

@[simp] theorem bytesOut_append : bytesOut (O ++ P) = bytesOut O + bytesOut P := by
  simp [bytesOut]

@[simp] theorem acksOut_append : acksOut (O ++ P) = acksOut O + acksOut P :=
  List.countP_append

@[simp] theorem resultsOut_append : resultsOut (O ++ P) = resultsOut O + resultsOut P :=
  List.countP_append

@[simp] theorem pairsOut_append : pairsOut (O ++ P) = pairsOut O + pairsOut P := by
  simp [pairsOut]

end Counts

theorem TxFrame.length_bytes (f : TxFrame) : f.bytes.length = f.axis.length := List.length_map _

@[simp] theorem bytesOut_ack (p : StatusPayload) : bytesOut [.ack p] = 15 := by
  simp [bytesOut, TxFrame.length_bytes, TxFrame.axis, txStatusFrame, txHeader, txU32, txU16, txByte]

@[simp] theorem bytesOut_status (p : StatusPayload) : bytesOut [.status p] = 15 := by
  simp [bytesOut, TxFrame.length_bytes, TxFrame.axis, txStatusFrame, txHeader, txU32, txU16, txByte]

@[simp] theorem bytesOut_timing (t : TimingSummaryPayload) : bytesOut [.timing t] = 203 := by
  simp [bytesOut, TxFrame.length_bytes, length_axis_timing]

theorem bytesOut_results {pairs : List ResultPair} (h : pairs ≠ []) :
    bytesOut [.results pairs] = 3 + pairs.length * 12 := by
  simp [bytesOut, TxFrame.length_bytes, TxFrame.length_axis_results h, Nat.mul_comm]

/-! ## The counters of the record -/

/-- The part of the record that counts rows, frames and bytes. -/
structure Counters where
  innerRows : UInt32
  outerRows : UInt32
  innerFrames : UInt32
  outerFrames : UInt32
  resultFrames : UInt32
  ackFrames : UInt32
  bytesRx : UInt32
  bytesTx : UInt32
  hashBuildInserts : UInt32
  hashProbeLookups : UInt32
  hashProbeHits : UInt32
  hashProbeMisses : UInt32
  deriving DecidableEq

namespace TimingSummaryPayload

variable (t : TimingSummaryPayload)

def counters : Counters where
  innerRows := t.innerRows
  outerRows := t.outerRows
  innerFrames := t.innerFrames
  outerFrames := t.outerFrames
  resultFrames := t.resultFrames
  ackFrames := t.ackFrames
  bytesRx := t.bytesRx
  bytesTx := t.bytesTx
  hashBuildInserts := t.hashBuildInserts
  hashProbeLookups := t.hashProbeLookups
  hashProbeHits := t.hashProbeHits
  hashProbeMisses := t.hashProbeMisses

@[simp] theorem counters_onBuildSteps (n : UInt32) : (t.onBuildSteps n).counters = t.counters := by
  unfold onBuildSteps
  split <;> rfl

theorem counters_onProbeSteps (n : UInt32) : (t.onProbeSteps n).counters =
    { t.counters with hashProbeLookups := t.hashProbeLookups + 1 } := by
  unfold onProbeSteps
  split <;> rfl

end TimingSummaryPayload

/-- The rows of a session as its variables have them: what CONFIGURE announced, the rows
inserted, and the rows probed with and without a match. -/
structure Account where
  innerTotal : Nat
  outerTotal : Nat
  inserts : Nat
  hits : Nat
  misses : Nat

/-- The counters that belong to the rows, the reads and the frames sent. -/
def Account.tally (a : Account) (L : List (Site × Option UInt8)) (O : List TxFrame) : Counters where
  innerRows := UInt32.ofNat a.innerTotal
  outerRows := UInt32.ofNat a.outerTotal
  innerFrames := UInt32.ofNat (framesIn .innerData L)
  outerFrames := UInt32.ofNat (framesIn .outerData L)
  resultFrames := UInt32.ofNat (resultsOut O)
  ackFrames := UInt32.ofNat (acksOut O)
  bytesRx := UInt32.ofNat L.length
  bytesTx := UInt32.ofNat (bytesOut O)
  hashBuildInserts := UInt32.ofNat a.inserts
  hashProbeLookups := UInt32.ofNat (a.hits + a.misses)
  hashProbeHits := UInt32.ofNat a.hits
  hashProbeMisses := UInt32.ofNat a.misses

/-- The session is open and its record agrees with the reads and the frames; the pairs that have
not been sent are in the result buffer. -/
structure Kept (a : Account) (L : List (Site × Option UInt8)) (O : List TxFrame) (s : Session) :
    Prop where
  counters : s.timing.counters = a.tally L O
  innerTotal : s.innerTotal = a.innerTotal
  outerTotal : s.outerTotal = a.outerTotal
  matched : s.matched = a.hits
  buffered : pairsOut O + s.resultBufCnt = a.hits
  results : resultsOut O ≤ pairsOut O

/-- No TIMING frame has been sent. -/
def Untimed (O : List TxFrame) : Prop := ∀ t, .timing t ∉ O

theorem Untimed.snoc {O : List TxFrame} {f : TxFrame} (h : Untimed O) (hf : ∀ t, .timing t ≠ f) :
    Untimed (O ++ [f]) := by
  intro t ht
  rcases List.mem_append.mp ht with ht | ht
  · exact h t ht
  · exact hf t (List.mem_singleton.mp ht)

/-! ## Reading a payload -/

/-- Reads inside of a frame: `n` bytes, `k` of them of tuple identifiers. -/
structure Payload (n k : Nat) (M : List (Site × Option UInt8)) : Prop where
  length : M.length = n
  tidBytes : tidBytesIn M = k
  inside : ∀ r ∈ M, r.1 ≠ .msgType

theorem Payload.nil : Payload 0 0 [] := ⟨rfl, rfl, by simp⟩

theorem Payload.append {n k n' k' : Nat} {M N : List (Site × Option UInt8)} (h : Payload n k M)
    (h' : Payload n' k' N) : Payload (n + n') (k + k') (M ++ N) where
  length := by rw [List.length_append, h.length, h'.length]
  tidBytes := by rw [tidBytesIn_append, h.tidBytes, h'.tidBytes]
  inside := by
    intro r hr
    rcases List.mem_append.mp hr with hr | hr
    · exact h.inside r hr
    · exact h'.inside r hr

theorem Payload.framesIn {n k : Nat} {M : List (Site × Option UInt8)} (h : Payload n k M)
    (type : MsgType) : framesIn type M = 0 :=
  List.count_eq_zero.mpr fun hmem => h.inside _ hmem rfl

/-- A part of the kernel that reads a payload and sends nothing. -/
def Consumes {α : Type} (p : KProc α) (n k : Nat) (Q : α → Prop) : Prop :=
  Ends [] [] p fun M P a => P = [] ∧ Payload n k M ∧ Q a

section Consumes

variable {α β : Type} {p : KProc α} {n k n' k' : Nat} {Q : α → Prop} {R : β → Prop}

theorem Consumes.pure {a : α} (h : Q a) : Consumes (Pure.pure a) 0 0 Q :=
  Ends.pure ⟨rfl, .nil, h⟩

theorem Consumes.bind {f : α → KProc β} (h : Consumes p n k Q)
    (hf : ∀ a, Q a → Consumes (f a) n' k' R) : Consumes (p >>= f) (n + n') (k + k') R := by
  refine Ends.bind h ?_
  rintro M P a ⟨rfl, hM, ha⟩
  refine (Ends.behind (hf a ha)).mono ?_
  rintro _ _ b ⟨N, _, rfl, rfl, rfl, hN, hb⟩
  exact ⟨rfl, hM.append hN, hb⟩

/-- Nothing is read behind the part. -/
theorem Consumes.map {f : α → KProc β} (h : Consumes p n k Q)
    (hf : ∀ a, Q a → Consumes (f a) 0 0 R) : Consumes (p >>= f) n k R :=
  h.bind hf

theorem Consumes.rxByte {site : Site} (h : site ≠ .msgType) :
    Consumes (rxByte site) 1 (if site = .tid then 1 else 0) fun _ => True := by
  refine Ends.read fun x => ⟨rfl, ⟨rfl, ?_, ?_⟩, trivial⟩
  · simp [tidBytesIn, List.countP_cons]
  · simpa using h

theorem rxU16_consumes {site : Site} (h : site ≠ .msgType) :
    Consumes (rxU16 site) 2 (if site = .tid then 2 else 0) fun _ => True := by
  have hbyte := Consumes.rxByte h
  have hall : Consumes (rxU16 site) (1 + 1)
      ((if site = .tid then 1 else 0) + if site = .tid then 1 else 0) fun _ => True :=
    hbyte.bind fun _ _ => hbyte.map fun _ _ => .pure trivial
  split_ifs at hall ⊢ <;> exact hall

theorem rxU32_consumes {site : Site} (h : site ≠ .msgType) :
    Consumes (rxU32 site) 4 (if site = .tid then 4 else 0) fun _ => True := by
  have hbyte := Consumes.rxByte h
  have hall : Consumes (rxU32 site) (1 + (1 + (1 + 1)))
      ((if site = .tid then 1 else 0) + ((if site = .tid then 1 else 0) +
        ((if site = .tid then 1 else 0) + if site = .tid then 1 else 0))) fun _ => True :=
    hbyte.bind fun _ _ => hbyte.bind fun _ _ => hbyte.bind fun _ _ =>
      hbyte.map fun _ _ => .pure trivial
  split_ifs at hall ⊢ <;> exact hall

theorem rxI64_consumes : Consumes (rxI64 .key) 8 0 fun _ => True := by
  have hbyte : Consumes (rxByte .key) 1 0 fun _ => True := Consumes.rxByte (by decide)
  exact hbyte.bind fun _ _ => hbyte.bind fun _ _ => hbyte.bind fun _ _ => hbyte.bind fun _ _ =>
    hbyte.bind fun _ _ => hbyte.bind fun _ _ => hbyte.bind fun _ _ =>
      hbyte.map fun _ _ => .pure trivial

theorem rxTid_consumes : Consumes rxTid 6 6 fun _ => True :=
  (rxU32_consumes (by decide)).bind fun _ _ => (rxU16_consumes (by decide)).map fun _ _ =>
    .pure trivial

/-- **A tuple has as many bytes as the timing record counts for it.** -/
theorem rxTuple_consumes (keytype : UInt8) :
    Consumes (rxTuple keytype) (tupleBytesFor keytype).toNat 6 fun _ => True := by
  have hrest : ∀ key : Int64, Consumes (rxTid >>= fun tid => pure (key, tid)) 6 6
      fun _ : InputTuple => True := fun _ => rxTid_consumes.map fun _ _ => .pure trivial
  by_cases hkey : keytype = KeyType.int64.code
  · rw [tupleBytesFor, if_pos hkey, rxTuple, rxKey, if_pos hkey]
    exact rxI64_consumes.bind fun key _ => hrest key
  · rw [tupleBytesFor, if_neg hkey, rxTuple, rxKey, if_neg hkey]
    have hword : Consumes (rxU32 .key >>= fun v => pure v.toInt32.toInt64) 4 0
        fun _ : Int64 => True := (rxU32_consumes (by decide)).map fun _ _ => .pure trivial
    exact hword.bind fun key _ => hrest key

/-- The tuples of a frame go to the receive buffers and nowhere else. -/
theorem rxBatch_consumes (count : Nat) (s : Session) :
    Consumes (rxBatch count s) (count * (tupleBytesFor s.keytype).toNat) (count * 6)
      fun s' => ∃ keys tids, s' = { s with rxKeyBuf := keys, rxTidBuf := tids } := by
  refine Ends.forRange (fun i M P s' => P = [] ∧
    Payload (i * (tupleBytesFor s.keytype).toNat) (i * 6) M ∧
    ∃ keys tids, s' = { s with rxKeyBuf := keys, rxTidBuf := tids }) ?_ ?_
  · rw [Nat.zero_mul, Nat.zero_mul]
    exact ⟨rfl, .nil, s.rxKeyBuf, s.rxTidBuf, rfl⟩
  · rintro i - M _ _ ⟨rfl, hM, keys, tids, rfl⟩
    refine Ends.bind (Ends.behind (rxTuple_consumes s.keytype)) ?_
    rintro _ _ t ⟨N, _, rfl, rfl, rfl, hN, -⟩
    refine Ends.require fun _ => Ends.pure ⟨rfl, ?_, _, _, rfl⟩
    rw [Nat.succ_mul, Nat.succ_mul]
    exact hM.append hN

end Consumes

/-! ## How the tally grows -/

section Tally

variable (a : Account) (L : List (Site × Option UInt8)) (O : List TxFrame)

theorem tally_ack (p : StatusPayload) : a.tally L (O ++ [.ack p]) =
    { a.tally L O with
      ackFrames := (a.tally L O).ackFrames + 1
      bytesTx := (a.tally L O).bytesTx + 15 } := by
  simp [Account.tally, acksOut, resultsOut, TxFrame.isAck, TxFrame.isResults]

theorem tally_results {pairs : List ResultPair} (h : pairs ≠ []) :
    a.tally L (O ++ [.results pairs]) =
      { a.tally L O with
        resultFrames := (a.tally L O).resultFrames + 1
        bytesTx := (a.tally L O).bytesTx + (3 + UInt32.ofNat pairs.length * 12) } := by
  simp [Account.tally, acksOut, resultsOut, TxFrame.isAck, TxFrame.isResults, bytesOut_results h]

/-- The STATUS frame is counted as an ACK frame. -/
theorem tally_final (t : TimingSummaryPayload) (p : StatusPayload) :
    { a.tally L (O ++ [.timing t, .status p]) with
      ackFrames := (a.tally L (O ++ [.timing t, .status p])).ackFrames + 1 } =
    { a.tally L O with
      ackFrames := (a.tally L O).ackFrames + 1
      bytesTx := (a.tally L O).bytesTx + (15 + 3 + 200) } := by
  have hbytes : bytesOut [.timing t, .status p] = 218 := by
    rw [← List.singleton_append, bytesOut_append, bytesOut_timing, bytesOut_status]
  simp [Account.tally, acksOut, resultsOut, TxFrame.isAck, TxFrame.isResults, hbytes]

/-- The bytes of a DATA frame, as the kernel computes them with 64 bits. -/
theorem toUInt32_cycles (count : UInt16) (keytype : UInt8) :
    (3 + count.toUInt64 * tupleBytesFor keytype).toUInt32 =
      UInt32.ofNat (3 + count.toNat * (tupleBytesFor keytype).toNat) := by
  apply UInt32.toNat_inj.mp
  unfold tupleBytesFor
  split <;> simp

/-- The reads that take a DATA frame. -/
structure FrameReads (type : MsgType) (count : UInt16) (keytype : UInt8)
    (M : List (Site × Option UInt8)) : Prop where
  split : ∃ N, M = (.msgType, some type.code) :: N ∧
    Payload (2 + count.toNat * (tupleBytesFor keytype).toNat) (count.toNat * 6) N

end Tally

namespace FrameReads

variable {type : MsgType} {count : UInt16} {keytype : UInt8} {M : List (Site × Option UInt8)}

theorem length (h : FrameReads type count keytype M) :
    M.length = 3 + count.toNat * (tupleBytesFor keytype).toNat := by
  obtain ⟨N, rfl, hN⟩ := h.split
  rw [List.length_cons, hN.length]
  omega

theorem tidBytes (h : FrameReads type count keytype M) : tidBytesIn M = count.toNat * 6 := by
  obtain ⟨N, rfl, hN⟩ := h.split
  rw [← hN.tidBytes]
  simp [tidBytesIn]

theorem framesIn (h : FrameReads type count keytype M) (other : MsgType) :
    framesIn other M = if type = other then 1 else 0 := by
  obtain ⟨N, rfl, hN⟩ := h.split
  have hcount : N.count (.msgType, some other.code) = 0 := hN.framesIn other
  rw [FpgaHashJoin.framesIn, List.count_cons, hcount]
  simp [MsgType.code_inj]

end FrameReads

section Frames

variable {a : Account} {L M : List (Site × Option UInt8)} {O : List TxFrame} {s : Session}
  {count : UInt16}

/-- A frame of the build phase has been read. -/
theorem Kept.innerFrame (h : Kept a L O s) (hM : FrameReads .innerData count s.keytype M)
    (keys : Nat → Int64) (tids : Nat → Tid) :
    Kept a (L ++ M) O { s.withTiming
      (·.onInnerFrame (3 + count.toUInt64 * tupleBytesFor s.keytype)) with
        rxKeyBuf := keys, rxTidBuf := tids } where
  counters := by
    have hnew : (s.timing.onInnerFrame (3 + count.toUInt64 * tupleBytesFor s.keytype)).counters =
        { s.timing.counters with
          innerFrames := s.timing.counters.innerFrames + 1
          bytesRx := s.timing.counters.bytesRx +
            (3 + count.toUInt64 * tupleBytesFor s.keytype).toUInt32 } := rfl
    refine hnew.trans ?_
    rw [h.counters, toUInt32_cycles, ← hM.length]
    simp [Account.tally, hM.framesIn]
  innerTotal := h.innerTotal
  outerTotal := h.outerTotal
  matched := h.matched
  buffered := h.buffered
  results := h.results

/-- A frame of the probe phase has been read. -/
theorem Kept.outerFrame (h : Kept a L O s) (hM : FrameReads .outerData count s.keytype M)
    (keys : Nat → Int64) (tids : Nat → Tid) :
    Kept a (L ++ M) O { s.withTiming
      (·.onOuterFrame (3 + count.toUInt64 * tupleBytesFor s.keytype)) with
        rxKeyBuf := keys, rxTidBuf := tids } where
  counters := by
    have hnew : (s.timing.onOuterFrame (3 + count.toUInt64 * tupleBytesFor s.keytype)).counters =
        { s.timing.counters with
          outerFrames := s.timing.counters.outerFrames + 1
          bytesRx := s.timing.counters.bytesRx +
            (3 + count.toUInt64 * tupleBytesFor s.keytype).toUInt32 } := rfl
    refine hnew.trans ?_
    rw [h.counters, toUInt32_cycles, ← hM.length]
    simp [Account.tally, hM.framesIn]
  innerTotal := h.innerTotal
  outerTotal := h.outerTotal
  matched := h.matched
  buffered := h.buffered
  results := h.results

/-- An ACK has been sent. -/
theorem Kept.ack (h : Kept a L O s) (p : StatusPayload) :
    Kept a L (O ++ [.ack p]) (s.withTiming (·.onAck)) where
  counters := by
    have hnew : s.timing.onAck.counters = { s.timing.counters with
        ackFrames := s.timing.counters.ackFrames + 1
        bytesTx := s.timing.counters.bytesTx + 15 } := rfl
    rw [tally_ack, ← h.counters]
    exact hnew
  innerTotal := h.innerTotal
  outerTotal := h.outerTotal
  matched := h.matched
  buffered := by
    rw [pairsOut_append]
    exact h.buffered
  results := by
    rw [resultsOut_append, pairsOut_append]
    exact h.results

/-- An update of the record that changes no counter. -/
theorem Kept.retime (h : Kept a L O s) {f : TimingSummaryPayload → TimingSummaryPayload}
    (hf : (f s.timing).counters = s.timing.counters) : Kept a L O (s.withTiming f) where
  counters := hf.trans h.counters
  innerTotal := h.innerTotal
  outerTotal := h.outerTotal
  matched := h.matched
  buffered := h.buffered
  results := h.results

theorem Kept.buildBatch (h : Kept a L O s) (n : UInt64) :
    Kept a L O (s.withTiming (·.onBuildBatch n)) :=
  h.retime (f := fun t => t.onBuildBatch n) rfl

theorem Kept.probeBatch (h : Kept a L O s) (n : UInt64) :
    Kept a L O (s.withTiming (·.onProbeBatch n)) :=
  h.retime (f := fun t => t.onProbeBatch n) rfl

end Frames

end FpgaHashJoin
