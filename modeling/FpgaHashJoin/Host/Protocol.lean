import FpgaHashJoin.Host.Waits

/-!
# The client as a protocol machine

What `run_hash_join` does with whole frames. The client waits in one of six places: for the
answer to CONFIGURE, for an ACK of the build phase or of the probe phase, for the answer to
the marker that ends the rows, for the final STATUS, and for the answer to RESET. The machine
says what it sends and where it waits next when a frame arrives, when the wait times out, and
when a frame is cut off. `Host.Simulation` proves that the client follows it.
-/

namespace FpgaHashJoin

open Process CreditWindow

instance (f : TxFrame) : Decidable f.WellFormed :=
  match f with
  | .results _ => inferInstanceAs (Decidable (_ ∧ _))
  | .ack _ | .status _ | .error _ | .timing _ | .debug _ _ _ => isTrue trivial

/-- The waits of the client with the variables that are still needed, and the end of the
call. `reset` counts the attempts that remain after this one. -/
inductive CState where
  | config
  | build (v : Window)
  | probe (v : Window) (results : List ResultPair)
  | probeEnd (results : List ResultPair)
  | final (results : List ResultPair)
  | reset (attempts : Nat) (results : List ResultPair)
  | finished (r : Except ClientError (List ResultPair))
  deriving DecidableEq

/-- A complete frame, a time-out in front of a frame, and a time-out after the first `n` bytes
of a frame. -/
inductive CEvent where
  | frame (f : TxFrame)
  | timeout
  | cut (f : TxFrame) (n : Nat)

abbrev CReaction := List Packet × CState

/-- Send something first. -/
def CReaction.emit (ps : List Packet) (r : CReaction) : CReaction := (ps ++ r.1, r.2)

@[simp] theorem CReaction.emit_nil (r : CReaction) : CReaction.emit [] r = r := rfl

namespace JoinCall

variable (j : JoinCall)

/-! ## The end of the call -/

def cleanupPackets : List Packet := if j.client.cfg.resetAfterRun then [[.reset]] else []

def leaveStep : Except ClientError Completed → CReaction
  | .error e => (j.cleanupPackets, .finished (.error e))
  | .ok (.reported results) => (j.cleanupPackets, .finished (.ok results))
  | .ok (.inferred results) => ([[.reset]], .reset 7 results)

/-- Leave with the results if their number is the one in the STATUS. -/
def verifyStep (results : List ResultPair) (ack : StatusPayload) : CReaction :=
  if ack.rowsMatched.toNat ≠ results.length then
    j.leaveStep (.error (matchedMismatch "final STATUS" results ack))
  else j.leaveStep (.ok (.reported results))

def completeStep (results : List ResultPair) (ack : StatusPayload) : CReaction :=
  if ack.phase ≠ Phase.done.code ∧ j.FinalProbeAck results ack then
    j.leaveStep (.ok (.inferred results))
  else if ack.phase ≠ Phase.done.code then ([], .final results)
  else j.verifyStep results ack

def finalStep (results : List ResultPair) (ack : StatusPayload) : CReaction :=
  if ack.phase ≠ Phase.done.code then
    j.leaveStep (.error (.fpgaException "FPGA final drain did not reach PHASE_DONE"))
  else j.verifyStep results ack

def resetStep (attempts : Nat) (results : List ResultPair) (ack : StatusPayload) : CReaction :=
  if ack.phase = Phase.idle.code then ([], .finished (.ok results))
  else if attempts = 0 then
    ([], .finished (.error
      (.fpgaException "FPGA reset after final probe ACK did not reach PHASE_IDLE")))
  else ([], .reset (attempts - 1) results)

/-! ## Both phases -/

/-- The packets of `sendRows`. -/
def rowPackets (msg : DataMsg) (rows : List InputTuple) : Nat → Window → List Packet
  | 0, _ => []
  | slots + 1, v =>
    match v.next j.batch rows.length with
    | none => []
    | some k =>
      [.data msg j.config.keyType ((rows.drop v.sent).take k)] ::
        rowPackets msg rows slots (v.push k)

/-- The packets of `sendWindow` and the window it leaves. -/
def windowPackets (msg : DataMsg) (rows : List InputTuple) (v : Window) : List Packet :=
  j.rowPackets msg rows (j.window - v.inflight.length) v

def filled (rows : List InputTuple) (v : Window) : Window :=
  v.fill j.batch rows.length (j.window - v.inflight.length)

/-! ## Probe phase -/

def probeEndStep (results : List ResultPair) (ack : StatusPayload) : CReaction :=
  if j.NeedsProbeEnd ack then
    ([[.data .outer j.config.keyType []]], .probeEnd results)
  else j.completeStep results ack

/-- The head of the probe loop. -/
def enterProbe (p : ProbeVars) : CReaction :=
  if (p.win.sent < j.outer.length ∨ p.win.inflight ≠ []) ∧ p.probeReachedDone = false then
    .emit (j.windowPackets .outer j.outer p.win) <|
      if (j.filled j.outer p.win).inflight = [] then j.leaveStep (.error (zeroCredit "probe"))
      else ([], .probe (j.filled j.outer p.win) p.results)
  else j.probeEndStep p.results p.lastProbeAck

theorem enterProbe_done (p : ProbeVars) (h : p.probeReachedDone = true) :
    j.enterProbe p = j.probeEndStep p.results p.lastProbeAck := by
  rw [enterProbe, if_neg]
  simp [h]

def probeStep (v : Window) (results : List ResultPair) (ack : StatusPayload) : CReaction :=
  let r := applyCumulativeAck { v with credit := ack.credit.toNat } ack.rowsProcessed
  if ack.phase = Phase.done.code then
    j.enterProbe ⟨{ r.2 with inflight := [] }, results, ack, true⟩
  else if r.1 = 0 ∧ r.2.inflight ≠ [] then j.leaveStep (.error (noAdvance "probe"))
  else j.enterProbe ⟨r.2, results, ack, false⟩

/-! ## Build phase -/

/-- The head of the build loop. -/
def enterBuild (v : Window) : CReaction :=
  if v.sent < j.inner.length ∨ v.inflight ≠ [] then
    .emit (j.windowPackets .inner j.inner v) <|
      if (j.filled j.inner v).inflight = [] then j.leaveStep (.error (zeroCredit "build"))
      else ([], .build (j.filled j.inner v))
  else j.enterProbe {}

def buildStep (v : Window) (ack : StatusPayload) : CReaction :=
  let r := applyCumulativeAck { v with credit := ack.credit.toNat } ack.rowsProcessed
  if r.1 = 0 ∧ r.2.inflight ≠ [] then j.leaveStep (.error (noAdvance "build"))
  else j.enterBuild r.2

end JoinCall

/-! ## All events -/

namespace CState

/-- The wait in which a state reads. -/
def kind : CState → AckWaitKind
  | .config => .config
  | .build _ => .build
  | .probe _ _ => .probe
  | .probeEnd _ => .probe
  | .final _ => .finalStatus
  | .reset _ _ => .reset
  | .finished _ => .reset

variable (j : JoinCall)

/-- Results arrive. They are kept from the probe phase on. -/
def more (pairs : List ResultPair) : CState → CState
  | .probe v results => .probe v (results ++ pairs)
  | .probeEnd results => .probeEnd (results ++ pairs)
  | .final results => .final (results ++ pairs)
  | st => st

/-- The wait is answered. -/
def answer (a : StatusPayload) : CState → CReaction
  | .config => j.enterBuild (j.firstWindow a)
  | .build v => j.buildStep v a
  | .probe v results => j.probeStep v results a
  | .probeEnd results => j.completeStep results a
  | .final results => j.finalStep results a
  | .reset attempts results => JoinCall.resetStep attempts results a
  | .finished r => ([], .finished r)

/-- The wait fails. -/
def failure (e : ClientError) : CState → CReaction
  | .reset _ results =>
    ([], .finished (if e = .timeout then .ok results else .error e))
  | .finished r => ([], .finished r)
  | _ => j.leaveStep (.error e)

/-- What a frame is to the wait of the state. -/
def hear (st : CState) : Heard → CReaction
  | .more pairs => ([], st.more pairs)
  | .answer a => st.answer j a
  | .failure e => st.failure j e

def step : CState → CEvent → Option CReaction
  | .finished _, _ => none
  | st, .frame f => if f.WellFormed then some (st.hear j (j.heard st.kind f)) else none
  | st, .timeout => some (st.failure j .timeout)
  | st, .cut f n =>
    if f.WellFormed ∧ 0 < n ∧ n < f.bytes.length then
      some (st.failure j ResultDecoder.partialFrame)
    else none

end CState

end FpgaHashJoin
