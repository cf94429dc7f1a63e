import FpgaHashJoin.Batching
import FpgaHashJoin.Kernel.HashJoinKernel

/-!
# The kernel as a protocol machine

What the kernel does with whole frames. The state is the phase of the session with the rows
that have arrived; hash table, external memory, buffers and timing record do not appear. The
machine reacts to complete frames and to the watchdog. It does not accept a frame that the
kernel rejects without reading its payload, and no DATA frame of the wrong key width or with
more tuples than the receive buffers hold.

The machine is a description of its own; `Kernel.Simulation` proves that the kernel follows
it.
-/

namespace FpgaHashJoin

open Process EquiJoin GraceHashEngine

/-- What the machine keeps of a frame: debug frames are dropped, and of a TIMING frame only
that it is there. -/
inductive KOut where
  | ack (p : StatusPayload)
  | status (p : StatusPayload)
  | error (code : UInt8)
  | results (pairs : List ResultPair)
  | timing
  deriving DecidableEq, Repr

def TxFrame.obs : TxFrame → List KOut
  | .ack p => [.ack p]
  | .status p => [.status p]
  | .error code => [.error code]
  | .results pairs => [.results pairs]
  | .timing _ => [.timing]
  | .debug _ _ _ => []

/-- An accepted configuration. -/
structure Conf where
  sessionId : UInt8
  keyType : KeyType
  innerTotal : Nat
  outerTotal : Nat
  K : Nat
  outerSlotW : Nat

/-- The machine's states: waiting for CONFIGURE, in the build and probe phases of Algorithm A
and of Algorithm B, and returned. `frame` counts the frames of the phase, `pending` those
since the last ACK, `inner` and `seen` are the rows received so far, `buf` the pairs that
have not been sent yet. -/
inductive KState where
  | idle
  | build (c : Conf) (frame pending : Nat) (inner : List InputTuple)
  | probe (c : Conf) (frame pending : Nat) (inner seen : List InputTuple) (buf : List ResultPair)
  | graceBuild (c : Conf) (frame : Nat) (inner : List InputTuple)
  | graceProbe (c : Conf) (frame : Nat) (inner outer : List InputTuple)
  | ended

/-- A complete frame, or the watchdog running out. -/
inductive KEvent where
  | frame (f : HostFrame)
  | watchdog

abbrev Reaction := List KOut × KState

/-- Send something first. -/
def Reaction.emit (os : List KOut) (r : Reaction) : Reaction := (os ++ r.1, r.2)

@[simp] theorem Reaction.emit_nil (r : Reaction) : Reaction.emit [] r = r := rfl

@[simp] theorem Reaction.emit_emit (os os' : List KOut) (r : Reaction) :
    Reaction.emit os (Reaction.emit os' r) = Reaction.emit (os ++ os') r := by
  simp [Reaction.emit]

namespace KState

variable (b : Build)

def endSession : Reaction := ([], if b.synthesis then .idle else .ended)

/-- The watchdog and RESET end a session with an ACK that reports the idle phase. -/
def idleAck (sessionId : UInt8) (credit : UInt16) (processed matched : Nat) : KOut :=
  .ack
    { phase := Phase.idle.code
      sessionId
      credit
      rowsProcessed := UInt32.ofNat processed
      rowsMatched := UInt32.ofNat matched }

def doneStatus (c : Conf) (processed matched : Nat) : KOut :=
  .status
    { phase := Phase.done.code
      sessionId := c.sessionId
      rowsProcessed := UInt32.ofNat processed
      rowsMatched := UInt32.ofNat matched }

/-- The ACK of a DATA frame. -/
def dataAck (c : Conf) (phase : Phase) (total processed matched : Nat) : KOut :=
  .ack
    { phase := phase.code
      sessionId := c.sessionId
      credit := creditFor (subU32 total processed)
      rowsProcessed := UInt32.ofNat processed
      rowsMatched := UInt32.ofNat matched }

/-! ## Algorithm A -/

/-- The head of the probe loop. When the loop ends here the session is reported done. -/
def enterProbe (c : Conf) (frame pending : Nat) (inner seen : List InputTuple)
    (buf : List ResultPair) : Reaction :=
  if frame < maxProbeFrames ∧ seen.length < c.outerTotal then
    ([], .probe c frame pending inner seen buf)
  else .emit [.timing, doneStatus c 0 (join inner seen).length] (endSession b)

/-- The head of the build loop. -/
def enterBuild (c : Conf) (frame pending : Nat) (inner : List InputTuple) : Reaction :=
  if frame ≤ htMaxRows + 1 ∧ inner.length < c.innerTotal then ([], .build c frame pending inner)
  else enterProbe b c 0 0 inner [] []

def buildStep (c : Conf) (frame pending : Nat) (inner ts : List InputTuple) : Reaction :=
  let inner' := inner ++ ts
  if LinearHashTable.fits inner' then
    if ackBatchFrames ≤ pending + 1 ∨ c.innerTotal ≤ inner'.length then
      .emit [dataAck c .building c.innerTotal inner'.length 0]
        (enterBuild b c (frame + 1) 0 inner')
    else enterBuild b c (frame + 1) (pending + 1) inner'
  else .emit [.error FpgaError.overflow.code] (endSession b)

def probeStep (c : Conf) (frame pending : Nat) (inner seen : List InputTuple)
    (buf : List ResultPair) (ts : List InputTuple) : Reaction :=
  let new := ts.take (c.outerTotal - seen.length)
  let seen' := seen ++ new
  let r := Batching.push resultFlushPairs buf (join inner new)
  let matched := (join inner seen').length
  .emit (r.1.map .results) <|
    if ts.length = 0 ∨ c.outerTotal ≤ seen'.length then
      .emit ((Batching.flush r.2).map .results ++
        [.timing, doneStatus c seen'.length matched]) (endSession b)
    else if ackBatchFrames ≤ pending + 1 then
      .emit [dataAck c .probing c.outerTotal seen'.length matched]
        (enterProbe b c (frame + 1) 0 inner seen' r.2)
    else enterProbe b c (frame + 1) (pending + 1) inner seen' r.2

/-! ## Algorithm B -/

/-- The rows of a partition. -/
def partRows (c : Conf) (p : Nat) (rows : List InputTuple) : List InputTuple :=
  rowsOf (fun k => partitionOf k c.K) p rows

/-- No partition has more than `limit` rows. -/
def partsFit (c : Conf) (limit : Nat) (rows : List InputTuple) : Prop :=
  ∀ p < c.K, (partRows c p rows).length ≤ limit

instance (c : Conf) (limit : Nat) (rows : List InputTuple) : Decidable (partsFit c limit rows) :=
  inferInstanceAs (Decidable (∀ p < c.K, _))

/-- The pairs of a partition. -/
def partJoin (c : Conf) (inner outer : List InputTuple) (p : Nat) : List ResultPair :=
  join (partRows c p inner) (partRows c p outer)

/-- Join the listed partitions; the flag tells whether all of them could be built. -/
def joinParts (c : Conf) (inner outer : List InputTuple) : List Nat → List KOut × Bool
  | [] => ([], true)
  | p :: ps =>
    if LinearHashTable.fits (partRows c p inner) then
      ((Batching.batches txBufSize (partJoin c inner outer p)).map .results ++
        (joinParts c inner outer ps).1, (joinParts c inner outer ps).2)
    else ([.error FpgaError.overflow.code], false)

def graceFinish (c : Conf) (inner outer : List InputTuple) : Reaction :=
  let r := joinParts c inner outer (List.range c.K)
  .emit r.1 <|
    if r.2 then
      .emit [doneStatus c 0 ((List.range c.K).flatMap (partJoin c inner outer)).length]
        (endSession b)
    else endSession b

def enterGraceProbe (c : Conf) (frame : Nat) (inner outer : List InputTuple) : Reaction :=
  if frame ≤ (UInt32.ofNat c.outerTotal + 1).toNat ∧ outer.length < c.outerTotal then
    ([], .graceProbe c frame inner outer)
  else graceFinish b c inner outer

def enterGraceBuild (c : Conf) (frame : Nat) (inner : List InputTuple) : Reaction :=
  if frame ≤ (UInt32.ofNat c.innerTotal + 1).toNat ∧ inner.length < c.innerTotal then
    ([], .graceBuild c frame inner)
  else enterGraceProbe b c 0 inner []

def graceBuildStep (c : Conf) (frame : Nat) (inner ts : List InputTuple) : Reaction :=
  if partsFit c htMaxRows (inner ++ ts) then
    .emit [dataAck c .building c.innerTotal (inner ++ ts).length 0]
      (enterGraceBuild b c (frame + 1) (inner ++ ts))
  else .emit [.error FpgaError.overflow.code] (endSession b)

def graceProbeStep (c : Conf) (frame : Nat) (inner outer ts : List InputTuple) : Reaction :=
  if partsFit c (c.outerSlotW / graceWordsPerTuple) (outer ++ ts) then
    .emit [dataAck c .probing c.outerTotal (outer ++ ts).length 0]
      (enterGraceProbe b c (frame + 1) inner (outer ++ ts))
  else .emit [.error FpgaError.overflow.code] (endSession b)

/-! ## All frames -/

/-- A frame of which only the header is read is rejected cleanly if it has no payload. -/
def reject (f : HostFrame) (e : FpgaError) : Option Reaction :=
  if f.bytes.length = 3 then some (.emit [.error e.code] (endSession b)) else none

def configureStep (p : ConfigurePayload) : Reaction :=
  match checkConfigure p.algorithm p.innerCount.toNat p.outerCount.toNat with
  | .error e => .emit [.error e.code] (endSession b)
  | .ok (K, outerSlotW) =>
    let c : Conf :=
      ⟨p.sessionId, KeyType.ofCode p.keyType, p.innerCount.toNat, p.outerCount.toNat, K, outerSlotW⟩
    .emit [.ack
        { phase := Phase.building.code
          sessionId := p.sessionId
          credit := UInt16.ofNat rxCreditTuples }] <|
      if p.algorithm = AlgorithmType.algorithmB.code then enterGraceBuild b c 0 []
      else enterBuild b c 0 0 []

/-- The tuples as the kernel reads them, if the frame has the width of the session and fits
the receive buffers. -/
def dataRows (c : Conf) (w : KeyType) (ts : List InputTuple) : Option (List InputTuple) :=
  if w = c.keyType ∧ ts.length ≤ rxBufTuples then some (ts.map w.wire) else none

def step : KState → KEvent → Option Reaction
  | .idle, .watchdog => some (.emit [idleAck 0 (UInt16.ofNat rxCreditTuples) 0 0] (endSession b))
  | .idle, .frame .reset =>
    some (.emit [idleAck 0 (UInt16.ofNat rxCreditTuples) 0 0] (endSession b))
  | .idle, .frame (.configure p) => some (configureStep b p)
  | .idle, .frame f => reject b f .invalidCmd
  | .build c _ _ _, .watchdog =>
    some (.emit [idleAck c.sessionId (UInt16.ofNat rxCreditTuples) 0 0] (endSession b))
  | .build c _ _ _, .frame .reset => some (.emit [idleAck c.sessionId 0 0 0] (endSession b))
  | .build c frame pending inner, .frame (.data .inner w ts) =>
    (dataRows c w ts).map (buildStep b c frame pending inner)
  | .build _ _ _ _, .frame f => reject b f .badState
  | .probe c _ _ _ _ _, .watchdog =>
    some (.emit [idleAck c.sessionId (UInt16.ofNat rxCreditTuples) 0 0] (endSession b))
  | .probe c _ _ inner seen buf, .frame .reset =>
    some (.emit ((Batching.flush buf).map .results ++
      [idleAck c.sessionId 0 seen.length (join inner seen).length]) (endSession b))
  | .probe c frame pending inner seen buf, .frame (.data .outer w ts) =>
    (dataRows c w ts).map (probeStep b c frame pending inner seen buf)
  | .probe _ _ _ _ _ _, .frame f => reject b f .invalidCmd
  | .graceBuild _ _ _, .watchdog => none
  | .graceBuild c _ _, .frame .reset => some (.emit [idleAck c.sessionId 0 0 0] (endSession b))
  | .graceBuild c frame inner, .frame (.data .inner w ts) =>
    (dataRows c w ts).map (graceBuildStep b c frame inner)
  | .graceBuild _ _ _, .frame f => reject b f .badState
  | .graceProbe _ _ _ _, .watchdog => none
  | .graceProbe c _ _ _, .frame .reset => some (.emit [idleAck c.sessionId 0 0 0] (endSession b))
  | .graceProbe c frame inner outer, .frame (.data .outer w ts) =>
    (dataRows c w ts).map (graceProbeStep b c frame inner outer)
  | .graceProbe _ _ _ _, .frame f => reject b f .badState
  | .ended, _ => none

end KState

/-! ## How events are read -/

/-- The reads of a header. -/
def headerReads (type : MsgType) (count : Nat) : List (Site × Option UInt8) :=
  (.msgType, some type.code) :: tagged .count (LittleEndian.bytes16 (UInt16.ofNat count))

/-- The CONFIGURE payload. -/
def configureBytes (p : ConfigurePayload) : List UInt8 :=
  [p.algorithm, p.keyType] ++ LittleEndian.bytes16 p.rxBufSlots ++
    LittleEndian.bytes32 p.innerCount ++ LittleEndian.bytes32 p.outerCount ++ [p.sessionId]

/-- The reads that take a frame, when the kernel accepts it. -/
def HostFrame.reads : HostFrame → List (Site × Option UInt8)
  | .configure p => headerReads .configure 1 ++ tagged .config (configureBytes p)
  | .data msg w ts => headerReads msg.type ts.length ++ ts.flatMap (tupleReads w)
  | .reset => headerReads .reset 0

def KEvent.reads : KEvent → List (Site × Option UInt8)
  | .frame f => f.reads
  | .watchdog => [(.msgType, none)]

def KEvent.vals : KEvent → List (Option UInt8)
  | .frame f => f.bytes.map some
  | .watchdog => [none]

theorem map_snd_headerReads (type : MsgType) (count : Nat) :
    (headerReads type count).map Prod.snd = (hostHeader type count).map some := by
  simp [headerReads, hostHeader, TupleSerializer.putU8, TupleSerializer.putU16]

theorem HostFrame.map_snd_reads (f : HostFrame) : f.reads.map Prod.snd = f.bytes.map some := by
  cases f with
  | configure p =>
    simp [reads, bytes, map_snd_headerReads, hostHeader, configureBytes,
      TupleSerializer.serializeConfigure, TupleSerializer.putU8, TupleSerializer.putU16,
      TupleSerializer.putU32]
  | data msg w ts =>
    simp [reads, bytes_data, map_snd_headerReads, List.map_flatMap, map_snd_tupleReads]
  | reset => exact map_snd_headerReads _ _

theorem KEvent.map_snd_reads (e : KEvent) : e.reads.map Prod.snd = e.vals := by
  cases e with
  | frame f => exact f.map_snd_reads
  | watchdog => rfl

end FpgaHashJoin
