import FpgaHashJoin.Frames
import FpgaHashJoin.Process.Basic

/-!
# The decoder of the host

`ResultDecoder::recv_frame` reads one frame of the kernel from a transport. It only uses the
`recv` of the transport, so it is a definition over any monad that has this operation: the
client process of `Host.FpgaClient`, or a transport with a fixed supply of bytes. `recv n`
hands over at most `n` bytes; no bytes mean that the time-out of the transport has run out.
No bytes in place of the first one is `MSG_NONE`, no bytes later is a frame that was cut
off. A frame with a wrong count or an unknown type is refused with the texts of the source.
-/

namespace FpgaHashJoin

open Process LittleEndian

/-- The exceptions of `FpgaClient`, and the `std::runtime_error` of the decoder. -/
inductive ClientError where
  | fpgaException (msg : String)
  | timeout
  | fpgaError (code : UInt8)
  | runtimeError (msg : String)
  deriving DecidableEq, Repr

namespace ResultDecoder

universe u

/-! ## Reading values -/

def readU8 : List UInt8 → UInt8
  | b0 :: _ => b0
  | _ => 0

def readU16 : List UInt8 → UInt16
  | b0 :: b1 :: _ => word16 b0 b1
  | _ => 0

def readU32 : List UInt8 → UInt32
  | b0 :: b1 :: b2 :: b3 :: _ => word32 b0 b1 b2 b3
  | _ => 0

def readU64 : List UInt8 → UInt64
  | b0 :: b1 :: b2 :: b3 :: b4 :: b5 :: b6 :: b7 :: _ => word64 b0 b1 b2 b3 b4 b5 b6 b7
  | _ => 0

def readTid (p : List UInt8) : Tid := ⟨readU32 p, readU16 (p.drop 4)⟩

/-- The pairs of a RESULT payload, twelve bytes each. -/
def readPairs : Nat → List UInt8 → List ResultPair
  | 0, _ => []
  | n + 1, p => (readTid p, readTid (p.drop 6)) :: readPairs n (p.drop 12)

def readStatus (buf : List UInt8) : StatusPayload where
  phase := readU8 buf
  sessionId := readU8 (buf.drop 1)
  credit := readU16 (buf.drop 2)
  rowsProcessed := readU32 (buf.drop 4)
  rowsMatched := readU32 (buf.drop 8)

/-- Read at the pointer and move it on. -/
def nextU16 : StateM (List UInt8) UInt16 := fun p => (readU16 p, p.drop 2)
def nextU32 : StateM (List UInt8) UInt32 := fun p => (readU32 p, p.drop 4)
def nextU64 : StateM (List UInt8) UInt64 := fun p => (readU64 p, p.drop 8)

def readTiming : StateM (List UInt8) TimingSummaryPayload := do
  return {
    version := ← nextU16
    flags := ← nextU16
    clockHz := ← nextU32
    innerRows := ← nextU32
    outerRows := ← nextU32
    matchedRows := ← nextU32
    innerFrames := ← nextU32
    outerFrames := ← nextU32
    resultFrames := ← nextU32
    ackFrames := ← nextU32
    debugFrames := ← nextU32
    bytesRx := ← nextU32
    bytesTx := ← nextU32
    sessionTotalCycles := ← nextU64
    configCycles := ← nextU64
    buildRxCycles := ← nextU64
    buildComputeCycles := ← nextU64
    buildTotalCycles := ← nextU64
    probeRxCycles := ← nextU64
    probeComputeCycles := ← nextU64
    resultEmitCycles := ← nextU64
    probeTotalCycles := ← nextU64
    ackEmitCycles := ← nextU64
    rxWaitCycles := ← nextU64
    txBlockedCycles := ← nextU64
    protocolWaitCycles := ← nextU64
    maxBuildBatchCycles := ← nextU32
    maxProbeBatchCycles := ← nextU32
    maxResultFrameCycles := ← nextU32
    hashBuildInserts := ← nextU32
    hashProbeLookups := ← nextU32
    hashProbeHits := ← nextU32
    hashProbeMisses := ← nextU32
    hashOverflowErrors := ← nextU32
    hashBuildCollisionSteps := ← nextU32
    hashProbeCollisionSteps := ← nextU32
    hashMaxBuildProbeDistance := ← nextU16
    hashMaxProbeDistance := ← nextU16
    hashTableLoadFactorPpm := ← nextU32 }

/-! ## Reading frames -/

section Frames

variable {m : Type → Type u} [Monad m] [MonadExceptOf ClientError m]

def partialFrame : ClientError :=
  .runtimeError "ResultDecoder: partial protocol frame timed out"

/-- Read until `n` bytes have arrived. -/
def recvExact (recv : Nat → m (List UInt8)) (n : Nat) : m (List UInt8) :=
  if n = 0 then return []
  else do
    let got ← recv n
    if _hgot : got = [] then throw partialFrame
    else do
      let rest ← recvExact recv (n - got.length)
      return got ++ rest
termination_by n
decreasing_by
  have := List.length_pos_iff.mpr _hgot
  omega

def requireCount (got expected : UInt16) (msgName : String) : m Unit :=
  if got = expected then return ()
  else throw (.runtimeError ("ResultDecoder: bad " ++ msgName ++ " count " ++ toString got))

/-- The rest of a frame after its header. -/
def recvPayload (recv : Nat → m (List UInt8)) (msgType : UInt8) (count : UInt16) : m TxFrame :=
  if msgType = MsgType.result.code then
    if txBufSize < count.toNat then
      throw (.runtimeError ("ResultDecoder: oversized MSG_RESULT count " ++ toString count))
    else do
      let payload ← recvExact recv (count.toNat * 12)
      return .results (readPairs count.toNat payload)
  else if msgType = MsgType.ack.code then do
    requireCount count 1 "MSG_ACK"
    let buf ← recvExact recv 12
    return .ack (readStatus buf)
  else if msgType = MsgType.status.code then do
    requireCount count 1 "MSG_STATUS"
    let buf ← recvExact recv 12
    return .status (readStatus buf)
  else if msgType = MsgType.error.code then do
    requireCount count 1 "MSG_ERROR"
    let buf ← recvExact recv 1
    return .error (readU8 buf)
  else if msgType = MsgType.debug.code then do
    requireCount count 1 "MSG_DEBUG"
    let buf ← recvExact recv 7
    return .debug (readU8 buf) (readU16 (buf.drop 1)) (readU32 (buf.drop 3))
  else if msgType = MsgType.timing.code then do
    requireCount count timingSummaryCount "MSG_TIMING"
    let buf ← recvExact recv timingSummaryBytes
    return .timing (readTiming buf).1
  else throw (.runtimeError ("ResultDecoder: unknown msg_type 0x" ++ toString msgType))

/-- One frame, or `MSG_NONE` if there is no first byte. -/
def recvFrame (recv : Nat → m (List UInt8)) : m (Option TxFrame) := do
  match ← recv 1 with
  | [] => return none
  | msgType :: _ =>
    let countBytes ← recvExact recv 2
    let f ← recvPayload recv msgType (readU16 countBytes)
    return some f

/-- Call `recv_frame` several times. -/
def recvFrames (recv : Nat → m (List UInt8)) : Nat → m (List (Option TxFrame))
  | 0 => return []
  | n + 1 => do
    let f ← recvFrame recv
    let fs ← recvFrames recv n
    return f :: fs

end Frames

end ResultDecoder

/-! ## The bytes of a frame -/

theorem map_data_txU16 (v : UInt16) (last : Bool) :
    (txU16 v last).map AxisByte.data = bytes16 v :=
  rfl

theorem map_data_txU32 (v : UInt32) (last : Bool) :
    (txU32 v last).map AxisByte.data = bytes32 v :=
  rfl

/-- The two halves of a 64-bit value have the bytes of the value. -/
theorem map_data_txU64 (v : UInt64) (last : Bool) :
    (txU64 v last).map AxisByte.data = bytes64 v := by
  rw [txU64, List.map_append, map_data_txU32, map_data_txU32]
  simp only [bytes32, bytes64, List.cons_append, List.nil_append, List.cons.injEq, and_true]
  refine ⟨?_, ?_, ?_, ?_, ?_, ?_, ?_, ?_⟩
  all_goals
    apply UInt8.eq_of_toBitVec_eq
    apply BitVec.eq_of_getLsbD_eq
    intro i hi
    simp
    try grind

def statusBytes (p : StatusPayload) : List UInt8 :=
  p.phase :: p.sessionId :: (bytes16 p.credit ++ (bytes32 p.rowsProcessed ++ bytes32 p.rowsMatched))

def tidBytes (t : Tid) : List UInt8 := bytes32 t.blkno ++ bytes16 t.offno

def pairBytes (p : ResultPair) : List UInt8 := tidBytes p.innerTid ++ tidBytes p.outerTid

def TxFrame.type : TxFrame → MsgType
  | .ack _ => .ack
  | .status _ => .status
  | .error _ => .error
  | .results _ => .result
  | .timing _ => .timing
  | .debug _ _ _ => .debug

def TxFrame.count : TxFrame → UInt16
  | .results pairs => UInt16.ofNat pairs.length
  | .timing _ => timingSummaryCount
  | _ => 1

/-- What follows the header. -/
def TxFrame.payload : TxFrame → List UInt8
  | .ack p => statusBytes p
  | .status p => statusBytes p
  | .error code => [code]
  | .results pairs => pairs.flatMap pairBytes
  | .timing t => (txTimingFields t).map AxisByte.data
  | .debug level code value => level :: (bytes16 code ++ bytes32 value)

theorem map_data_txPairs (pairs : List ResultPair) :
    (txPairs pairs).map AxisByte.data = pairs.flatMap pairBytes := by
  induction pairs with
  | nil => rfl
  | cons p ps ih =>
    rw [txPairs, List.map_append, ih]
    rfl

theorem TxFrame.bytes_eq {f : TxFrame} (hf : f.WellFormed) :
    f.bytes = f.type.code :: (bytes16 f.count ++ f.payload) := by
  cases f with
  | results pairs =>
    rw [TxFrame.bytes, TxFrame.axis, txResults, if_neg (by simpa using hf.1), List.map_append,
      map_data_txPairs]
    rfl
  | timing t =>
    rw [TxFrame.bytes, TxFrame.axis, txTimingSummary, List.map_append]
    rfl
  | ack | status | error | debug => rfl

theorem length_pairBytes (p : ResultPair) : (pairBytes p).length = 12 := rfl

theorem length_flatMap_pairBytes (pairs : List ResultPair) :
    (pairs.flatMap pairBytes).length = pairs.length * 12 := by
  induction pairs with
  | nil => rfl
  | cons p ps ih =>
    rw [List.flatMap_cons, List.length_append, length_pairBytes, ih, List.length_cons]
    omega

namespace ResultDecoder

@[simp] theorem readU16_append (v : UInt16) (p : List UInt8) : readU16 (bytes16 v ++ p) = v :=
  word16_bytes16 v

@[simp] theorem readU32_append (v : UInt32) (p : List UInt8) : readU32 (bytes32 v ++ p) = v :=
  word32_bytes32 v

theorem nextU16_append (v : UInt16) (p : List UInt8) : nextU16 (bytes16 v ++ p) = (v, p) :=
  Prod.ext (word16_bytes16 v) rfl

theorem nextU32_append (v : UInt32) (p : List UInt8) : nextU32 (bytes32 v ++ p) = (v, p) :=
  Prod.ext (word32_bytes32 v) rfl

theorem nextU64_append (v : UInt64) (p : List UInt8) : nextU64 (bytes64 v ++ p) = (v, p) :=
  Prod.ext (word64_bytes64 v) rfl

/-- **The record is read field by field as it was written.** -/
theorem readTiming_fields (t : TimingSummaryPayload) :
    readTiming ((txTimingFields t).map AxisByte.data) = (t, []) := by
  unfold txTimingFields
  simp only [List.map_append]
  simp only [map_data_txU16, map_data_txU32, map_data_txU64]
  rw [← List.append_nil (bytes32 t.hashTableLoadFactorPpm)]
  simp only [List.append_assoc]
  unfold readTiming
  simp only [bind, StateT.bind, nextU16_append, nextU32_append, nextU64_append]
  rfl

theorem readStatus_statusBytes (p : StatusPayload) : readStatus (statusBytes p) = p := by
  have hmatched := readU32_append p.rowsMatched []
  rw [List.append_nil] at hmatched
  simp only [readStatus, statusBytes]
  congr 1
  · exact readU16_append _ _
  · exact readU32_append _ _

theorem readPairs_flatMap (pairs : List ResultPair) :
    readPairs pairs.length (pairs.flatMap pairBytes) = pairs := by
  induction pairs with
  | nil => rfl
  | cons p ps ih =>
    have hrest : (pairBytes p ++ ps.flatMap pairBytes).drop 12 = ps.flatMap pairBytes := rfl
    rw [List.flatMap_cons, List.length_cons, readPairs, hrest, ih]
    congr 1
    refine Prod.ext (congrArg₂ Tid.mk ?_ ?_) (congrArg₂ Tid.mk ?_ ?_)
    · exact word32_bytes32 _
    · exact word16_bytes16 _
    · exact word32_bytes32 _
    · exact word16_bytes16 _

theorem length_statusBytes (p : StatusPayload) : (statusBytes p).length = 12 := rfl

theorem length_txTimingFields (t : TimingSummaryPayload) :
    ((txTimingFields t).map AxisByte.data).length = timingSummaryBytes := by
  unfold txTimingFields
  simp only [List.map_append, List.length_append, map_data_txU16, map_data_txU32, map_data_txU64,
    length_bytes16, length_bytes32, length_bytes64]
  rfl

theorem toNat_resultCount {pairs : List ResultPair} (h : pairs.length ≤ txBufSize) :
    (UInt16.ofNat pairs.length).toNat = pairs.length := by
  rw [txBufSize_eq] at h
  exact UInt16.toNat_ofNat_of_lt' (by simp [UInt16.size]; omega)

section Spec

variable {m : Type → Type u} [Monad m] [LawfulMonad m] [MonadExceptOf ClientError m]

/-- **After the header of a frame exactly its payload is read, and decoded to the frame.** -/
theorem recvPayload_eq (recv : Nat → m (List UInt8)) {f : TxFrame} (hf : f.WellFormed) :
    ∃ decode : List UInt8 → TxFrame, decode f.payload = f ∧
      recvPayload recv f.type.code f.count =
        recvExact recv f.payload.length >>= fun buf => pure (decode buf) := by
  cases f with
  | ack p =>
    refine ⟨fun buf => .ack (readStatus buf), congrArg _ (readStatus_statusBytes p), ?_⟩
    simp [recvPayload, requireCount, TxFrame.type, TxFrame.count, TxFrame.payload,
      length_statusBytes, MsgType.code]
  | status p =>
    refine ⟨fun buf => .status (readStatus buf), congrArg _ (readStatus_statusBytes p), ?_⟩
    simp [recvPayload, requireCount, TxFrame.type, TxFrame.count, TxFrame.payload,
      length_statusBytes, MsgType.code]
  | error code =>
    refine ⟨fun buf => .error (readU8 buf), rfl, ?_⟩
    simp [recvPayload, requireCount, TxFrame.type, TxFrame.count, TxFrame.payload, MsgType.code]
  | results pairs =>
    refine ⟨fun buf => .results (readPairs pairs.length buf),
      congrArg _ (readPairs_flatMap pairs), ?_⟩
    have hcount : (TxFrame.results pairs).count.toNat = pairs.length := toNat_resultCount hf.2
    have hlen : (TxFrame.results pairs).payload.length = pairs.length * 12 :=
      length_flatMap_pairBytes pairs
    unfold recvPayload
    rw [if_pos (show (TxFrame.results pairs).type.code = MsgType.result.code from rfl), hcount,
      if_neg (Nat.not_lt.mpr hf.2), hlen]
  | timing t =>
    have hlen : (TxFrame.timing t).payload.length = timingSummaryBytes := length_txTimingFields t
    refine ⟨fun buf => .timing (readTiming buf).1, ?_, ?_⟩
    · dsimp only
      rw [TxFrame.payload, readTiming_fields]
    · rw [hlen]
      simp [recvPayload, requireCount, TxFrame.type, TxFrame.count, MsgType.code]
  | debug level code value =>
    refine ⟨fun buf => .debug (readU8 buf) (readU16 (buf.drop 1)) (readU32 (buf.drop 3)), ?_, ?_⟩
    · exact congrArg₂ (TxFrame.debug level) (word16_bytes16 code) (word32_bytes32 value)
    · simp [recvPayload, requireCount, TxFrame.type, TxFrame.count, TxFrame.payload, MsgType.code]

end Spec

/-! ## A transport with a fixed supply

The bytes arrive in portions; `recv` hands over the next portion, or as much of it as fits. -/

section Supply

/-- The portions that have not been read yet. -/
abbrev SupplyM := StateT (List (List UInt8)) (Except ClientError)

def supplyRecv (n : Nat) : SupplyM (List UInt8) := fun
  | [] => .ok ([], [])
  | c :: cs => .ok (c.take n, if c.length ≤ n then cs else c.drop n :: cs)

variable {portions : List (List UInt8)}

theorem supplyRecv_cons {n : Nat} {c : List UInt8} {cs : List (List UInt8)} (hn : 0 < n)
    (hne : ∀ c' ∈ c :: cs, c' ≠ []) :
    ∃ got rest, supplyRecv n (c :: cs) = .ok (got, rest) ∧ got ≠ [] ∧ got.length ≤ n ∧
      got ++ rest.flatten = (c :: cs).flatten ∧ ∀ c' ∈ rest, c' ≠ [] := by
  have hc : c ≠ [] := hne c List.mem_cons_self
  refine ⟨_, _, rfl, ?_, List.length_take_le n c, ?_, ?_⟩
  · simp only [ne_eq, List.take_eq_nil_iff, not_or]
    exact ⟨by omega, hc⟩
  · split
    next hle => rw [List.take_of_length_le hle, List.flatten_cons]
    next => rw [List.flatten_cons, List.flatten_cons, ← List.append_assoc, List.take_append_drop]
  · split
    next => exact fun c' hc' => hne c' (List.mem_cons_of_mem _ hc')
    next hle =>
      intro c' hc'
      rcases List.mem_cons.mp hc' with rfl | hc'
      · simpa using hle
      · exact hne c' (List.mem_cons_of_mem _ hc')

/-- **Whatever the portions are, the next bytes are read.** -/
theorem recvExact_supply (a b : List UInt8) (hne : ∀ c ∈ portions, c ≠ [])
    (h : portions.flatten = a ++ b) :
    ∃ rest, recvExact supplyRecv a.length portions = .ok (a, rest) ∧ rest.flatten = b ∧
      ∀ c ∈ rest, c ≠ [] := by
  -- on the number of bytes that are missing: each portion brings at least one
  induction hlen : a.length using Nat.strong_induction_on generalizing a portions with
  | _ n ih =>
    subst hlen
    rw [recvExact]
    by_cases ha : a = []
    · subst ha
      exact ⟨portions, rfl, by simpa using h, hne⟩
    · have hpos := List.length_pos_iff.mpr ha
      cases portions with
      | nil =>
        rw [List.flatten_nil, eq_comm, List.append_eq_nil_iff] at h
        exact absurd h.1 ha
      | cons c cs =>
        obtain ⟨got, rest, hrecv, hgot, hle, hflat, hrest⟩ := supplyRecv_cons hpos hne
        rw [h] at hflat
        obtain ⟨a', rfl⟩ : ∃ a', a = got ++ a' := by
          have hpre : got <+: a := List.prefix_of_prefix_length_le ⟨_, hflat⟩ ⟨_, rfl⟩ hle
          exact ⟨_, hpre.choose_spec.symm⟩
        have hflat' : rest.flatten = a' ++ b := by simpa using hflat
        have hless : a'.length < (got ++ a').length := by
          have := List.length_pos_iff.mpr hgot
          rw [List.length_append]
          omega
        obtain ⟨last, hread, hlast⟩ := ih a'.length hless a' hrest hflat' rfl
        refine ⟨last, ?_, hlast⟩
        have hsub : (got ++ a').length - got.length = a'.length := by simp
        rw [if_neg (by omega)]
        simp only [bind, StateT.bind, hrecv, Except.bind, dif_neg hgot, hsub, hread]
        rfl

/-- One frame at the front of the supply. -/
theorem recvFrame_supply {f : TxFrame} (hf : f.WellFormed) (b : List UInt8)
    (hne : ∀ c ∈ portions, c ≠ []) (h : portions.flatten = f.bytes ++ b) :
    ∃ rest, recvFrame supplyRecv portions = .ok (some f, rest) ∧ rest.flatten = b ∧
      ∀ c ∈ rest, c ≠ [] := by
  rw [TxFrame.bytes_eq hf] at h
  cases portions with
  | nil => cases h
  | cons c cs =>
    obtain ⟨got, rest, hrecv, hgot, hle, hflat, hrest⟩ := supplyRecv_cons Nat.one_pos hne
    obtain ⟨v, rfl⟩ : ∃ v, got = [v] := by
      have := List.length_pos_iff.mpr hgot
      exact List.length_eq_one_iff.mp (by omega)
    rw [h, List.singleton_append, List.cons_append, List.cons.injEq] at hflat
    obtain ⟨rfl, hflat⟩ := hflat
    rw [List.append_assoc] at hflat
    obtain ⟨rest₂, hcount, hflat₂, hrest₂⟩ := recvExact_supply _ _ hrest hflat
    obtain ⟨decode, hdecode, hpayload⟩ := recvPayload_eq supplyRecv hf
    obtain ⟨rest₃, hread, hflat₃, hrest₃⟩ := recvExact_supply _ _ hrest₂ hflat₂
    refine ⟨rest₃, ?_, hflat₃, hrest₃⟩
    have hword : readU16 (bytes16 f.count) = f.count := word16_bytes16 f.count
    rw [length_bytes16] at hcount
    unfold recvFrame
    simp only [bind, StateT.bind, hrecv, Except.bind, hcount, hword, hpayload, hread]
    rw [hdecode]
    rfl

/-- **The decoder returns the frames that were sent, whatever portions their bytes arrive in,
and then finds nothing more.** -/
theorem recvFrames_supply (fs : List TxFrame) (portions : List (List UInt8))
    (hfs : ∀ f ∈ fs, f.WellFormed) (hne : ∀ c ∈ portions, c ≠ [])
    (h : portions.flatten = fs.flatMap TxFrame.bytes) :
    recvFrames supplyRecv (fs.length + 1) portions = .ok (fs.map some ++ [none], []) := by
  induction fs generalizing portions with
  | nil =>
    obtain rfl : portions = [] := by
      rcases portions with - | ⟨c, cs⟩
      · rfl
      · rw [List.flatten_cons, List.flatMap_nil, List.append_eq_nil_iff] at h
        exact absurd h.1 (hne c List.mem_cons_self)
    rfl
  | cons f fs ih =>
    obtain ⟨rest, hframe, hflat, hrest⟩ := recvFrame_supply (hfs f List.mem_cons_self) _ hne h
    have hnext := ih rest (fun g hg => hfs g (List.mem_cons_of_mem _ hg)) hrest hflat
    rw [List.length_cons, recvFrames]
    simp only [bind, StateT.bind, hframe, Except.bind, hnext]
    rfl

/-- A RESULT frame and a STATUS frame that arrive byte by byte. -/
theorem recvFrames_supply_bytewise :
    recvFrames supplyRecv 3
        ((TxFrame.results [(⟨1, 2⟩, ⟨3, 4⟩)]).bytes.map ([·]) ++ [(TxFrame.status {}).bytes]) =
      .ok ([some (.results [(⟨1, 2⟩, ⟨3, 4⟩)]), some (.status {}), none], []) :=
  recvFrames_supply [.results [(⟨1, 2⟩, ⟨3, 4⟩)], .status {}] _
    (by simp [TxFrame.WellFormed, txBufSize]) (by decide) (by decide)

end Supply

end ResultDecoder

end FpgaHashJoin
