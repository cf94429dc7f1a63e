import FpgaHashJoin.CreditWindow
import FpgaHashJoin.Host.ResultDecoder

/-!
# The client of the host

`FpgaClient::run_hash_join` as a process. A message of the process is one call of
`transport.send`; this is a list of frames because CONFIGURE and the first INNER_DATA frame
may share a call. A read of the process hands over one byte, or nothing when the hard
time-out of the wait has run out: as long as there is no byte, `collect_until_ack` goes
round its loop until this happens. A read is labelled with the wait it belongs to.

Metrics, log lines and the pauses between frames have no effect on the protocol and are left
out.
-/

namespace FpgaHashJoin

open Process CreditWindow

/-- What the client waits for. -/
inductive AckWaitKind where
  | config
  | build
  | probe
  | finalStatus
  | reset
  deriving DecidableEq, Repr

structure JoinConfig where
  algorithm : UInt8 := AlgorithmType.algorithmA.code
  keyType : KeyType := .int32
  deriving DecidableEq, Repr

structure ClientConfig where
  maxBatchTuples : UInt16 := UInt16.ofNat rxBufTuples
  ackWindowFrames : UInt16 := 15
  sessionIdOverride : UInt8 := 0
  coalesceConfigFirstInner : Bool := false
  inferDoneFromProbeAck : Bool := false
  resetAfterRun : Bool := false
  deriving DecidableEq, Repr

/-- A client: the constructor has put batch size and window into their ranges. -/
structure FpgaClient where
  cfg : ClientConfig
  batch_pos : 0 < cfg.maxBatchTuples.toNat
  batch_le : cfg.maxBatchTuples.toNat ≤ rxBufTuples
  window_pos : 0 < cfg.ackWindowFrames.toNat

/-- The configuration after the constructor. -/
def ClientConfig.normalized (cfg : ClientConfig) : ClientConfig :=
  { cfg with
    maxBatchTuples :=
      if cfg.maxBatchTuples = 0 ∨ rxBufTuples < cfg.maxBatchTuples.toNat then
        UInt16.ofNat rxBufTuples
      else cfg.maxBatchTuples
    ackWindowFrames :=
      if cfg.ackWindowFrames = 0 then UInt16.ofNat ackBatchFrames else cfg.ackWindowFrames }

def FpgaClient.new (cfg : ClientConfig) : FpgaClient where
  cfg := cfg.normalized
  batch_pos := by
    unfold ClientConfig.normalized
    dsimp only
    split
    next => decide
    next h => exact UInt16.pos_iff_ne_zero.mpr fun h0 => h (Or.inl h0)
  batch_le := by
    unfold ClientConfig.normalized
    dsimp only
    split
    next => decide
    next h => exact Nat.not_lt.mp fun hlt => h (Or.inr hlt)
  window_pos := by
    unfold ClientConfig.normalized
    dsimp only
    split
    next => decide
    next h => exact UInt16.pos_iff_ne_zero.mpr h

/-- The number the counter of `next_session_id` yields. -/
def nextSessionId (counter : UInt32) : UInt8 := UInt8.ofNat (counter.toNat % 255 + 1)

/-! ## One call -/

/-- What stays fixed during a call of `run_hash_join`. -/
structure JoinCall where
  client : FpgaClient
  config : JoinConfig
  activeSessionId : UInt8
  inner : List InputTuple
  outer : List InputTuple

/-- The call of a client when the counter of session ids has the given value. -/
def FpgaClient.call (client : FpgaClient) (counter : UInt32) (config : JoinConfig)
    (inner outer : List InputTuple) : JoinCall where
  client := client
  config := config
  activeSessionId :=
    if client.cfg.sessionIdOverride ≠ 0 then client.cfg.sessionIdOverride
    else nextSessionId counter
  inner := inner
  outer := outer

/-- One call of `transport.send`. -/
abbrev Packet := List HostFrame

def Packet.bytes (p : Packet) : List UInt8 := p.flatMap HostFrame.bytes

abbrev CProc := Proc AckWaitKind UInt8 Packet

abbrev ClientM := ExceptT ClientError CProc

/-- `transport.send`. -/
def ClientM.send (p : Packet) : ClientM Unit := ExceptT.lift (Proc.put p)

/-- `transport.recv`. The bytes of the transport may come one by one. -/
def ClientM.recv (kind : AckWaitKind) (_maxLen : Nat) : ClientM (List UInt8) :=
  ExceptT.lift (.poll kind fun x => .ret x.toList)

/-- The counts are compared as they were received; `where_` is the place of the check. -/
def matchedMismatch (where_ : String) (results : List ResultPair) (ack : StatusPayload) :
    ClientError :=
  .fpgaException ("FPGA " ++ where_ ++ " rows_matched mismatch: status=" ++
    toString ack.rowsMatched.toNat ++ " results=" ++ toString results.length)

def verifyMatchedCount (where_ : String) (results : List ResultPair) (ack : StatusPayload) :
    ClientM Unit :=
  if ack.rowsMatched.toNat ≠ results.length then throw (matchedMismatch where_ results ack)
  else pure ()

/-- Retire the batches that the ACK covers. The number counts them. -/
def applyCumulativeAck (v : Window) (rowsProcessed : UInt32) : Nat × Window :=
  if rowsProcessed.toNat ≤ v.acked then (0, v)
  else
    let r := retire rowsProcessed.toNat v.acked v.inflight
    (r.1, { v with acked := r.2.1, inflight := r.2.2 })

namespace JoinCall

variable (j : JoinCall)

abbrev batch : Nat := j.client.cfg.maxBatchTuples.toNat
abbrev window : Nat := j.client.cfg.ackWindowFrames.toNat

/-! ## Waiting for an answer -/

/-- One round of `collect_until_ack` with the results collected so far. -/
def collectBody (kind : AckWaitKind) (acc : List ResultPair) :
    ClientM (List ResultPair ⊕ List ResultPair × StatusPayload) := do
  match ← ResultDecoder.recvFrame (ClientM.recv kind) with
  | none => throw .timeout
  | some (.results pairs) => return .inl (acc ++ pairs)
  | some (.ack a) | some (.status a) =>
    if kind ≠ .reset ∧ a.sessionId ≠ j.activeSessionId then return .inl acc
    else return .inr (acc, a)
  | some (.error code) => throw (.fpgaError code)
  | some (.debug _ _ _) | some (.timing _) => return .inl acc

/-- Collect results until an ACK or STATUS of the session arrives. -/
def collectUntilAck (kind : AckWaitKind) (acc : List ResultPair) :
    ClientM (List ResultPair × StatusPayload) :=
  iterE (j.collectBody kind) acc

/-! ## CONFIGURE -/

def configurePayload : ConfigurePayload where
  algorithm := j.config.algorithm
  keyType := j.config.keyType.code
  rxBufSlots := UInt16.ofNat rxCreditTuples
  innerCount := UInt32.ofNat j.inner.length
  outerCount := UInt32.ofNat j.outer.length
  sessionId := j.activeSessionId

/-- The number of tuples that are sent along with CONFIGURE. -/
def firstInnerBatch : Nat :=
  if j.client.cfg.coalesceConfigFirstInner ∧ j.inner.length ≠ 0 then
    min rxBufTuples (min j.batch j.inner.length)
  else 0

def configurePacket : Packet :=
  if j.firstInnerBatch = 0 then [.configure j.configurePayload]
  else [.configure j.configurePayload,
    .data .inner j.config.keyType (j.inner.take j.firstInnerBatch)]

/-- The variables of the build phase after the answer to CONFIGURE. -/
def firstWindow (ack : StatusPayload) : Window :=
  if j.firstInnerBatch = 0 then { credit := ack.credit.toNat }
  else
    { sent := j.firstInnerBatch
      credit := ack.credit.toNat - j.firstInnerBatch
      inflight := [j.firstInnerBatch] }

/-! ## Sending rows -/

/-- The inner loop of both phases, with the slots that are free in the window. -/
def sendRows (msg : DataMsg) (rows : List InputTuple) : Nat → Window → ClientM Window
  | 0, v => return v
  | slots + 1, v =>
    match v.next j.batch rows.length with
    | none => return v
    | some k => do
      ClientM.send [.data msg j.config.keyType ((rows.drop v.sent).take k)]
      sendRows msg rows slots (v.push k)

/-- Fill the window. -/
def sendWindow (msg : DataMsg) (rows : List InputTuple) (v : Window) : ClientM Window :=
  j.sendRows msg rows (j.window - v.inflight.length) v

def zeroCredit (phase : String) : ClientError :=
  .fpgaException ("FPGA gave zero credit during " ++ phase ++ " phase")

def noAdvance (phase : String) : ClientError :=
  .fpgaException ("FPGA " ++ phase ++ " ACK did not advance rows_processed")

/-! ## Build phase -/

def buildAcked (v : Window) (ack : StatusPayload) : ClientM Window :=
  let r := applyCumulativeAck { v with credit := ack.credit.toNat } ack.rowsProcessed
  if r.1 = 0 ∧ r.2.inflight ≠ [] then throw (noAdvance "build") else return r.2

def buildBody (v : Window) : ClientM (Window ⊕ Unit) :=
  if v.sent < j.inner.length ∨ v.inflight ≠ [] then do
    let v ← j.sendWindow .inner j.inner v
    if v.inflight = [] then throw (zeroCredit "build")
    else do
      let r ← j.collectUntilAck .build []
      let v ← buildAcked v r.2
      return .inl v
  else return .inr ()

/-! ## Probe phase -/

/-- The variables of the probe phase. -/
structure ProbeVars where
  win : Window := { credit := rxCreditTuples }
  results : List ResultPair := []
  lastProbeAck : StatusPayload := {}
  probeReachedDone : Bool := false
  deriving DecidableEq, Repr

def probeAcked (v : Window) (results : List ResultPair) (ack : StatusPayload) : ClientM ProbeVars :=
  let r := applyCumulativeAck { v with credit := ack.credit.toNat } ack.rowsProcessed
  if ack.phase = Phase.done.code then
    return ⟨{ r.2 with inflight := [] }, results, ack, true⟩
  else if r.1 = 0 ∧ r.2.inflight ≠ [] then throw (noAdvance "probe")
  else return ⟨r.2, results, ack, false⟩

def probeBody (p : ProbeVars) : ClientM (ProbeVars ⊕ ProbeVars) :=
  if (p.win.sent < j.outer.length ∨ p.win.inflight ≠ []) ∧ p.probeReachedDone = false then do
    let v ← j.sendWindow .outer j.outer p.win
    if v.inflight = [] then throw (zeroCredit "probe")
    else do
      let r ← j.collectUntilAck .probe p.results
      let p ← probeAcked v r.1 r.2
      return .inl p
  else return .inr p

/-- The last ACK leaves it to the client to end the probe phase. -/
def NeedsProbeEnd (ack : StatusPayload) : Prop :=
  j.config.algorithm = AlgorithmType.algorithmA.code ∧ j.outer.length ≠ 0 ∧
    ack.phase = Phase.probing.code ∧ ack.credit ≠ 0 ∧ j.outer.length ≤ ack.rowsProcessed.toNat

instance (ack : StatusPayload) : Decidable (j.NeedsProbeEnd ack) :=
  inferInstanceAs (Decidable (_ ∧ _))

/-- Send the marker for the end of the rows where it is needed. -/
def probeEnd (results : List ResultPair) (ack : StatusPayload) :
    ClientM (List ResultPair × StatusPayload) :=
  if j.NeedsProbeEnd ack then do
    ClientM.send [.data .outer j.config.keyType []]
    j.collectUntilAck .probe results
  else return (results, ack)

/-! ## Completion -/

/-- The last ACK tells that the kernel has taken everything. -/
def FinalProbeAck (results : List ResultPair) (ack : StatusPayload) : Prop :=
  j.client.cfg.inferDoneFromProbeAck ∧ j.config.algorithm = AlgorithmType.algorithmA.code ∧
    ack.phase = Phase.probing.code ∧ ack.credit = 0 ∧
    j.outer.length ≤ ack.rowsProcessed.toNat ∧ ack.rowsMatched.toNat = results.length

instance (results : List ResultPair) (ack : StatusPayload) :
    Decidable (j.FinalProbeAck results ack) :=
  inferInstanceAs (Decidable (_ ∧ _))

/-- The ways in which the main part ends normally: the kernel reported that it is done, or
the client has inferred it and is going to reset the kernel. -/
inductive Completed where
  | reported (results : List ResultPair)
  | inferred (results : List ResultPair)
  deriving DecidableEq, Repr

def complete (results : List ResultPair) (ack : StatusPayload) : ClientM Completed :=
  if ack.phase ≠ Phase.done.code ∧ j.FinalProbeAck results ack then do
    verifyMatchedCount "final ACK" results ack
    return .inferred results
  else if ack.phase ≠ Phase.done.code then do
    let (tail, finalAck) ← j.collectUntilAck .finalStatus []
    let results := results ++ tail
    if finalAck.phase ≠ Phase.done.code then
      throw (.fpgaException "FPGA final drain did not reach PHASE_DONE")
    else do
      verifyMatchedCount "final STATUS" results finalAck
      return .reported results
  else do
    verifyMatchedCount "final STATUS" results ack
    return .reported results

/-- Wait for the answer to RESET, with the number of attempts that remain. -/
def awaitReset : Nat → ClientM Unit
  | 0 => return ()
  | attempts + 1 => do
    match ← ExceptT.lift (j.collectUntilAck .reset []).run with
    | .error .timeout => return ()
    | .error e => throw e
    | .ok (_, ack) =>
      if ack.phase = Phase.idle.code then return ()
      else if attempts = 0 then
        throw (.fpgaException "FPGA reset after final probe ACK did not reach PHASE_IDLE")
      else awaitReset attempts

/-! ## The whole call -/

/-- Build phase, probe phase and completion. -/
def afterConfigure (ack : StatusPayload) : ClientM Completed := do
  iterE j.buildBody (j.firstWindow ack)
  let p ← iterE j.probeBody {}
  let (results, last) ← j.probeEnd p.results p.lastProbeAck
  j.complete results last

def mainPart : ClientM Completed := do
  ClientM.send j.configurePacket
  let (_, ack) ← j.collectUntilAck .config []
  j.afterConfigure ack

/-- The destructor of `SessionCleanup`. -/
def cleanup : CProc Unit := Proc.when j.client.cfg.resetAfterRun (Proc.put [.reset])

/-- Reset the kernel after an inferred end; `SessionCleanup` has been dismissed. -/
def resetInferred (results : List ResultPair) : ClientM (List ResultPair) := do
  ClientM.send [.reset]
  j.awaitReset 8
  return results

/-- What remains to be done after the main part. -/
def leave : Except ClientError Completed → CProc (Except ClientError (List ResultPair))
  | .error e => do
    j.cleanup
    return .error e
  | .ok (.reported results) => do
    j.cleanup
    return .ok results
  | .ok (.inferred results) => (j.resetInferred results).run

/-- `run_hash_join`. -/
def runHashJoin : CProc (Except ClientError (List ResultPair)) :=
  j.mainPart.run >>= j.leave

end JoinCall

end FpgaHashJoin
