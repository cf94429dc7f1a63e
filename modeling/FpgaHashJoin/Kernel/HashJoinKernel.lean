import FpgaHashJoin.Kernel.Grace

/-!
# The kernel

`hash_join_kernel.cpp`. One session is CONFIGURE, then the build and the probe phase of the
selected algorithm, then the final STATUS; `sessionDone` is the flag with which errors,
resets and the watchdog skip what is left. The synthesised kernel runs sessions for ever, the
C simulation returns after one.

`Session` holds the variables of the function: the static table and engine, the external
memory and the buffers keep their contents from session to session, the rest is
initialised by `Session.init`. Counters that cannot overflow are natural numbers;
subtractions that can wrap around are done with 32 bits. Accesses to the receive and the
result buffers are checked against their sizes.
-/

namespace FpgaHashJoin

open Process GraceHashEngine

/-- The AXI-Lite registers. -/
structure Registers where
  status : UInt32
  resultCount : UInt32
  errorCode : UInt32
  htCapacity : UInt32
  rxBufCap : UInt32
  deriving Inhabited

structure Session where
  ht : LinearHashTable
  grace : GraceHashEngine
  ddr2Buf : Nat → Int64
  resultBuf : Nat → ResultPair
  rxKeyBuf : Nat → Int64
  rxTidBuf : Nat → Tid
  regs : Registers
  algorithm : UInt8
  keytype : UInt8
  innerTotal : Nat
  outerTotal : Nat
  matched : Nat
  K : Nat
  outerSlotW : Nat
  resultBufCnt : Nat
  sessionId : UInt8
  sessionDone : Bool
  timing : TimingSummaryPayload
  deriving Inhabited

namespace Session

/-- The session variables at the start of a session. -/
def init (s : Session) : Session :=
  { s with
    algorithm := AlgorithmType.algorithmA.code
    keytype := KeyType.int32.code
    innerTotal := 0
    outerTotal := 0
    matched := 0
    K := 1
    outerSlotW := 0
    resultBufCnt := 0
    sessionId := 0
    sessionDone := false
    timing := .initial
    regs := { s.regs with
      status := Phase.idle.code.toUInt32
      errorCode := FpgaError.none.code.toUInt32
      resultCount := 0 } }

def setStatus (s : Session) (p : Phase) : Session :=
  { s with regs := { s.regs with status := p.code.toUInt32 } }

/-- Record an error and skip the rest of the session. -/
def fail (s : Session) (e : FpgaError) : Session :=
  { s with regs := { s.regs with errorCode := e.code.toUInt32 }, sessionDone := true }

def finish (s : Session) : Session := { s with sessionDone := true }

def withTiming (s : Session) (f : TimingSummaryPayload → TimingSummaryPayload) : Session :=
  { s with timing := f s.timing }

end Session

/-! ## CONFIGURE -/

/-- What CONFIGURE is checked against: the number of partitions and the width of their outer
slots, or the error. The width is computed with 32 bits. -/
def checkConfigure (algorithm : UInt8) (innerTotal outerTotal : Nat) : Except FpgaError (Nat × Nat) :=
  if algorithm = AlgorithmType.algorithmA.code then
    if htMaxRows < innerTotal then .error .overflow else .ok (1, 0)
  else if algorithm = AlgorithmType.algorithmB.code then
    if graceMaxInnerRows < innerTotal then .error .overflow
    else
      let k := (innerTotal + htMaxRows - 1) / htMaxRows
      let K := if k = 0 then 1 else k
      let outerSlotW := ((outerTotal / K + 1) * graceWordsPerTuple * 2) % 2 ^ 32
      if graceDdr2TotalWords < graceOuterAreaBase + K * outerSlotW then .error .overflow
      else .ok (K, outerSlotW)
  else .error .invalidCmd

/-- Check the configuration and acknowledge it. -/
def accept (b : Build) (s : Session) (p : ConfigurePayload) : KProc Session := do
  let s := { s with
    algorithm := p.algorithm
    keytype := p.keyType
    sessionId := p.sessionId
    innerTotal := p.innerCount.toNat
    outerTotal := p.outerCount.toNat
    timing := s.timing.onConfigure p.innerCount p.outerCount
    regs := { s.regs with resultCount := p.outerCount } }
  emitDebug b .info .configure p.innerCount
  match checkConfigure p.algorithm p.innerCount.toNat p.outerCount.toNat with
  | .error e => do
    Proc.put (.error e.code)
    return s.fail e
  | .ok (K, outerSlotW) => do
    Proc.put (.ack
      { phase := Phase.building.code
        sessionId := p.sessionId
        credit := UInt16.ofNat rxCreditTuples })
    return ({ s with K, outerSlotW }.setStatus .building).withTiming (·.onConfigureAck)

/-- The fields of the CONFIGURE payload; the host's buffer hint is read and not used. -/
def rxConfigure : KProc ConfigurePayload := do
  let algorithm ← rxByte .config
  let keyType ← rxByte .config
  let rxBufSlots ← rxU16 .config
  let innerCount ← rxU32 .config
  let outerCount ← rxU32 .config
  let sessionId ← rxByte .config
  return { algorithm, keyType, rxBufSlots, innerCount, outerCount, sessionId }

/-- Wait for the frame that starts a session. -/
def configure (b : Build) (s : Session) : KProc Session := do
  match ← rxByteGuarded b 0 with
  | none => return s.finish
  | some msgType =>
    let count ← rxU16 .count
    if msgType = MsgType.reset.code then do
      emitDebug b .info .reset 0
      Proc.put (.ack { phase := Phase.idle.code, credit := UInt16.ofNat rxCreditTuples })
      return { s with ht := s.ht.reset }.finish
    else if msgType ≠ MsgType.configure.code ∨ count ≠ 1 then do
      Proc.put (.error FpgaError.invalidCmd.code)
      return s.fail .invalidCmd
    else do
      let p ← rxConfigure
      accept b s p

/-! ## Algorithm B -/

def graceJoin (s : Session) (v : PartitionVars) : KProc Session := do
  let s := { s with ddr2Buf := v.ddr2, grace := ⟨s.grace.innerCounts, v.counts⟩ }
  if v.err ≠ .none then return s.fail v.err
  else do
    let j ← joinAllPartitions s.grace s.K s.outerSlotW s.ddr2Buf s.ht s.resultBuf
    let s := { s with ht := j.ht, resultBuf := j.resultBuf, matched := j.matched }
    if j.err ≠ .none then return s.fail j.err else return s

def graceProbe (s : Session) (v : PartitionVars) : KProc Session := do
  let s := { s with ddr2Buf := v.ddr2, grace := ⟨v.counts, fun _ => 0⟩ }
  if v.err ≠ .none then return s.fail v.err
  else do
    let s := s.setStatus .probing
    let v ← buildOuterPartitions s.outerTotal s.outerSlotW s.keytype s.K s.sessionId s.ddr2Buf
      s.grace.outerCounts
    graceJoin s v

def graceSession (s : Session) : KProc Session := do
  let v ← buildInnerPartitions s.innerTotal s.keytype s.K s.sessionId s.ddr2Buf
  graceProbe s v

/-! ## Algorithm A: build phase -/

/-- Read the tuples of a frame into the receive buffers. -/
def rxBatch (count : Nat) (s : Session) : KProc Session :=
  Proc.forRange count (fun s i => do
    let t ← rxTuple s.keytype
    Proc.require (i < rxBufTuples)
    return { s with
      rxKeyBuf := Function.update s.rxKeyBuf i t.key
      rxTidBuf := Function.update s.rxTidBuf i t.tid }) s

structure BuildVars where
  s : Session
  frame : Nat
  innerReceived : Nat
  buildAckPendingFrames : Nat
  buildBatchCycles : UInt64

/-- Insert tuple `i` of the receive buffers. -/
def innerBatch (v : BuildVars) (i : Nat) : KProc BuildVars :=
  if v.s.sessionDone then pure v
  else do
    Proc.require (i < rxBufTuples)
    let (err, ht, steps) := v.s.ht.build (v.s.rxKeyBuf i) (v.s.rxTidBuf i)
    let hashSteps := UInt32.ofNat steps
    let v := { v with
      s := { v.s with ht }.withTiming (·.onBuildSteps hashSteps)
      buildBatchCycles := v.buildBatchCycles + hashSteps.toUInt64 * 2 }
    if err ≠ .none then do
      Proc.put (.error err.code)
      return { v with s := (v.s.withTiming (·.onBuildOverflow)).fail err }
    else
      return { v with
        s := v.s.withTiming (·.onBuildInsert)
        innerReceived := v.innerReceived + 1 }

/-- Acknowledge every second frame and the last one. -/
def buildAck (v : BuildVars) : KProc BuildVars :=
  if v.s.sessionDone then pure v
  else do
    let v := { v with buildAckPendingFrames := v.buildAckPendingFrames + 1 }
    let remainingInner := subU32 v.s.innerTotal v.innerReceived
    let v ←
      if ackBatchFrames ≤ v.buildAckPendingFrames ∨ v.s.innerTotal ≤ v.innerReceived then do
        Proc.put (.ack
          { phase := Phase.building.code
            sessionId := v.s.sessionId
            credit := creditFor remainingInner
            rowsProcessed := UInt32.ofNat v.innerReceived })
        pure { v with
          s := v.s.withTiming (·.onAck)
          buildBatchCycles := v.buildBatchCycles + 15
          buildAckPendingFrames := 0 }
      else pure v
    return { v with s := v.s.withTiming (·.onBuildBatch v.buildBatchCycles) }

def tupleBytesFor (keytype : UInt8) : UInt64 :=
  if keytype = KeyType.int64.code then 14 else 10

/-- Insert the tuples of a frame that has been read, then acknowledge it. -/
def buildTuples (b : Build) (count : UInt16) (v : BuildVars) : KProc (BuildVars ⊕ BuildVars) := do
  Proc.when (count ≠ 0) (emitDebug b .info .buildKey (v.s.rxKeyBuf 0).toUInt64.toUInt32)
  let v ← Proc.forRange count.toNat innerBatch v
  let v ← buildAck v
  return .inl { v with frame := v.frame + 1 }

/-- Take one frame of the build phase. -/
def buildFrame (b : Build) (v : BuildVars) : KProc (BuildVars ⊕ BuildVars) := do
  match ← rxByteGuarded b v.s.sessionId with
  | none => return .inr { v with s := v.s.finish }
  | some msgType =>
    let count ← rxU16 .count
    let cycles := 3 + count.toUInt64 * tupleBytesFor v.s.keytype
    let v := { v with
      s := v.s.withTiming (·.onInnerFrame cycles)
      buildBatchCycles := cycles }
    if msgType = MsgType.reset.code then do
      Proc.put (.ack { phase := Phase.idle.code, sessionId := v.s.sessionId })
      return .inr { v with s := ({ v.s with ht := v.s.ht.reset }.setStatus .idle).finish }
    else if msgType ≠ MsgType.innerData.code then do
      Proc.put (.error FpgaError.badState.code)
      return .inr { v with s := v.s.fail .badState }
    else do
      let s ← rxBatch count.toNat v.s
      buildTuples b count { v with s }

/-- One iteration of the build loop. -/
def buildBody (b : Build) (v : BuildVars) : KProc (BuildVars ⊕ BuildVars) :=
  if v.s.sessionDone ∨ ¬ v.frame ≤ htMaxRows + 1 then pure (.inr v)
  else if v.s.innerTotal ≤ v.innerReceived then pure (.inr v)
  else buildFrame b v

/-! ## Algorithm A: probe phase -/

structure ProbeVars where
  s : Session
  frame : Nat
  outerReceived : Nat
  probeAckPendingFrames : Nat
  probeBatchCycles : UInt64

/-- Send the buffered pairs, if there are any. -/
def flushResultBatch (v : ProbeVars) : KProc ProbeVars :=
  if v.s.resultBufCnt = 0 then pure v
  else do
    let resultFrameBytes : UInt32 := 3 + UInt32.ofNat v.s.resultBufCnt * 12
    Proc.put (.results (bufferedPairs v.s.resultBuf v.s.resultBufCnt))
    return { v with
      s := { v.s with resultBufCnt := 0 }.withTiming (·.onResultFrame resultFrameBytes)
      probeBatchCycles := v.probeBatchCycles + resultFrameBytes.toUInt64 }

/-- Account for the steps of a lookup. -/
def ProbeVars.looked (v : ProbeVars) (steps : Nat) : ProbeVars :=
  let hashSteps := UInt32.ofNat steps
  { v with
    s := v.s.withTiming (·.onProbeSteps hashSteps)
    probeBatchCycles := v.probeBatchCycles + hashSteps.toUInt64 * 2 }

def ProbeVars.miss (v : ProbeVars) : ProbeVars :=
  { v with
    s := v.s.withTiming (·.onProbeMiss)
    outerReceived := v.outerReceived + 1 }

/-- Put a pair into the result buffer. -/
def ProbeVars.storePair (v : ProbeVars) (p : ResultPair) : ProbeVars :=
  { v with
    s := { v.s with
      resultBuf := Function.update v.s.resultBuf v.s.resultBufCnt p
      resultBufCnt := v.s.resultBufCnt + 1
      matched := v.s.matched + 1 }.withTiming (·.onProbeHit) }

def flushIfFull (v : ProbeVars) : KProc ProbeVars :=
  if resultFlushPairs ≤ v.s.resultBufCnt then flushResultBatch v else pure v

def probeHit (v : ProbeVars) (p : ResultPair) : KProc ProbeVars := do
  Proc.require (v.s.resultBufCnt < txBufSize)
  let v ← flushIfFull (v.storePair p)
  return { v with outerReceived := v.outerReceived + 1 }

/-- Probe the table with tuple `i` of the receive buffers. -/
def outerBatch (b : Build) (v : ProbeVars) (i : Nat) : KProc ProbeVars := do
  Proc.require (i < rxBufTuples)
  let key := v.s.rxKeyBuf i
  let (found, steps) := v.s.ht.probe key
  Proc.when (i = 0) (emitDebug b .info .probeHit
    ((if found.isSome then 0x80000000 else 0) ||| (key.toUInt64.toUInt32 &&& 0x7fffffff)))
  match found with
  | none => return (v.looked steps).miss
  | some innerTid => probeHit (v.looked steps) (innerTid, v.s.rxTidBuf i)

/-- The end of the session inside the probe loop. -/
def probeDone (b : Build) (innerReceived : Nat) (v : ProbeVars) : KProc ProbeVars := do
  let cycles := v.probeBatchCycles + (15 + 3 + 200)
  let s := v.s.setStatus .done
  let s := { s with regs := { s.regs with
    resultCount := UInt32.ofNat s.matched
    errorCode := FpgaError.none.code.toUInt32 } }
  let timing := { s.timing with
    innerRows := UInt32.ofNat innerReceived
    outerRows := UInt32.ofNat v.outerReceived
    matchedRows := UInt32.ofNat s.matched }
  let timing := applyRtlStreamTiming ((timing.onFinalFrames.onProbeBatch cycles).onTotals) b.rtl
  Proc.put (.timing timing)
  Proc.put (.status
    { phase := Phase.done.code
      sessionId := s.sessionId
      rowsProcessed := UInt32.ofNat v.outerReceived
      rowsMatched := UInt32.ofNat s.matched })
  return { v with s := { s with timing }.finish, probeBatchCycles := cycles }

/-- Acknowledge every second frame that is not the last one. -/
def probeAck (v : ProbeVars) : KProc ProbeVars := do
  let remainingOuter := subU32 v.s.outerTotal v.outerReceived
  let v ←
    if ackBatchFrames ≤ v.probeAckPendingFrames then do
      Proc.put (.ack
        { phase := Phase.probing.code
          sessionId := v.s.sessionId
          credit := creditFor remainingOuter
          rowsProcessed := UInt32.ofNat v.outerReceived
          rowsMatched := UInt32.ofNat v.s.matched })
      pure { v with
        s := v.s.withTiming (·.onAck)
        probeBatchCycles := v.probeBatchCycles + 15
        probeAckPendingFrames := 0 }
    else pure v
  return { v with s := v.s.withTiming (·.onProbeBatch v.probeBatchCycles) }

/-- The bound of the probe loop. -/
def maxProbeFrames : Nat := 1000000

/-- Probe with the tuples of a frame that has been read, as far as rows are still expected,
then acknowledge the frame or end the session. -/
def probeTuples (b : Build) (innerReceived : Nat) (count : UInt16) (v : ProbeVars) :
    KProc (ProbeVars ⊕ ProbeVars) := do
  Proc.when (count ≠ 0) (emitDebug b .info .probeKey (v.s.rxKeyBuf 0).toUInt64.toUInt32)
  let remainingBeforeBatch := v.s.outerTotal - v.outerReceived
  let processCount := min remainingBeforeBatch count.toNat
  let v ← Proc.forRange processCount (outerBatch b) v
  if count = 0 ∨ v.s.outerTotal ≤ v.outerReceived then do
    let v ← flushResultBatch v
    let v ← probeDone b innerReceived { v with
      probeAckPendingFrames := v.probeAckPendingFrames + 1 }
    return .inl { v with frame := v.frame + 1 }
  else do
    let v ← probeAck { v with probeAckPendingFrames := v.probeAckPendingFrames + 1 }
    return .inl { v with frame := v.frame + 1 }

/-- Take one frame of the probe phase. -/
def probeFrame (b : Build) (innerReceived : Nat) (v : ProbeVars) :
    KProc (ProbeVars ⊕ ProbeVars) := do
  match ← rxByteGuarded b v.s.sessionId with
  | none => return .inr { v with s := v.s.finish }
  | some msgType =>
    let count ← rxU16 .count
    let cycles := 3 + count.toUInt64 * tupleBytesFor v.s.keytype
    let v := { v with
      s := v.s.withTiming (·.onOuterFrame cycles)
      probeBatchCycles := cycles }
    if msgType = MsgType.reset.code then do
      let v ← flushResultBatch v
      Proc.put (.ack
        { phase := Phase.idle.code
          sessionId := v.s.sessionId
          rowsProcessed := UInt32.ofNat v.outerReceived
          rowsMatched := UInt32.ofNat v.s.matched })
      return .inr { v with s := ({ v.s with ht := v.s.ht.reset }.setStatus .idle).finish }
    else if msgType ≠ MsgType.outerData.code then do
      Proc.put (.error FpgaError.invalidCmd.code)
      return .inr { v with s := v.s.fail .invalidCmd }
    else do
      let s ← rxBatch count.toNat v.s
      probeTuples b innerReceived count { v with s }

/-- One iteration of the probe loop. -/
def probeBody (b : Build) (innerReceived : Nat) (v : ProbeVars) : KProc (ProbeVars ⊕ ProbeVars) :=
  if v.s.sessionDone ∨ ¬ v.frame < maxProbeFrames then pure (.inr v)
  else if v.s.outerTotal ≤ v.outerReceived then pure (.inr v)
  else probeFrame b innerReceived v

def linearProbe (b : Build) (v : BuildVars) : KProc Session :=
  if v.s.sessionDone then return v.s
  else do
    emitDebug b .info .buildDone (UInt32.ofNat v.innerReceived)
    let w ← Proc.iter (probeBody b v.innerReceived) ⟨v.s.setStatus .probing, 0, 0, 0, 0⟩
    return w.s

def linearSession (b : Build) (s : Session) : KProc Session := do
  let v ← Proc.iter (buildBody b) ⟨{ s with ht := s.ht.reset }, 0, 0, 0, 0⟩
  linearProbe b v

/-! ## The whole kernel -/

/-- The final STATUS of a session that no other branch has ended. -/
def done (b : Build) (s : Session) : KProc Session := do
  emitDebug b .info .probeDone (UInt32.ofNat s.matched)
  let s := s.setStatus .done
  let s := { s with regs := { s.regs with
    resultCount := UInt32.ofNat s.matched
    errorCode := FpgaError.none.code.toUInt32 } }
  let s ←
    if s.algorithm = AlgorithmType.algorithmA.code then do
      let timing := { s.timing with matchedRows := UInt32.ofNat s.matched }
      let timing := applyRtlStreamTiming timing.onFinalFrames.onTotals b.rtl
      Proc.put (.timing timing)
      pure { s with timing }
    else pure s
  Proc.put (.status
    { phase := Phase.done.code
      sessionId := s.sessionId
      rowsMatched := UInt32.ofNat s.matched })
  return s

/-- What follows the phases of the selected algorithm. -/
def afterLinear (b : Build) (s : Session) : KProc Session :=
  if s.sessionDone then return s else done b s

def afterGrace (b : Build) (s : Session) : KProc Session := do
  let s ←
    if !s.sessionDone && s.algorithm = AlgorithmType.algorithmA.code then linearSession b s
    else pure s
  afterLinear b s

def afterConfigure (b : Build) (s : Session) : KProc Session := do
  let s ←
    if !s.sessionDone && s.algorithm = AlgorithmType.algorithmB.code then graceSession s
    else pure s
  afterGrace b s

def session (b : Build) (s : Session) : KProc Session := do
  emitDebug b .info .idleEnter 0
  let s ← configure b s.init
  afterConfigure b s

/-- One iteration of the session loop. -/
def kernelBody (b : Build) (s : Session) : KProc (Session ⊕ Session) := do
  let s ← session b s
  if b.synthesis then return .inl s else return .inr s

/-- The top-level function. The capability registers are written once. -/
def hashJoinKernel (b : Build) (s : Session) : KProc Session :=
  .iter (kernelBody b)
    { s with regs := { s.regs with
      htCapacity := UInt32.ofNat htMaxRows
      rxBufCap := UInt32.ofNat rxCreditTuples } }

end FpgaHashJoin
