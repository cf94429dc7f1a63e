import FpgaHashJoin.Types

/-!
# The timing summary

The record that the kernel fills in during an Algorithm A session and sends in the TIMING
frame. The counters have the widths of the source and wrap around. Each update of the
kernel is a function here; `hashJoinKernel` applies them at the places where the source
changes the record.
-/

namespace FpgaHashJoin

def timingSummaryVersion : UInt16 := 1
def timingSummaryCount : UInt16 := 1
def timingSummaryBytes : Nat := 200
def timingFlagEstimatedCycles : UInt16 := 0x0001
def timingFlagRtlStreamCycles : UInt16 := 0x0002
def timingDefaultClockHz : UInt32 := 70000000

structure TimingSummaryPayload where
  version : UInt16 := 0
  flags : UInt16 := 0
  clockHz : UInt32 := 0
  innerRows : UInt32 := 0
  outerRows : UInt32 := 0
  matchedRows : UInt32 := 0
  innerFrames : UInt32 := 0
  outerFrames : UInt32 := 0
  resultFrames : UInt32 := 0
  ackFrames : UInt32 := 0
  debugFrames : UInt32 := 0
  bytesRx : UInt32 := 0
  bytesTx : UInt32 := 0
  sessionTotalCycles : UInt64 := 0
  configCycles : UInt64 := 0
  buildRxCycles : UInt64 := 0
  buildComputeCycles : UInt64 := 0
  buildTotalCycles : UInt64 := 0
  probeRxCycles : UInt64 := 0
  probeComputeCycles : UInt64 := 0
  resultEmitCycles : UInt64 := 0
  probeTotalCycles : UInt64 := 0
  ackEmitCycles : UInt64 := 0
  rxWaitCycles : UInt64 := 0
  txBlockedCycles : UInt64 := 0
  protocolWaitCycles : UInt64 := 0
  maxBuildBatchCycles : UInt32 := 0
  maxProbeBatchCycles : UInt32 := 0
  maxResultFrameCycles : UInt32 := 0
  hashBuildInserts : UInt32 := 0
  hashProbeLookups : UInt32 := 0
  hashProbeHits : UInt32 := 0
  hashProbeMisses : UInt32 := 0
  hashOverflowErrors : UInt32 := 0
  hashBuildCollisionSteps : UInt32 := 0
  hashProbeCollisionSteps : UInt32 := 0
  hashMaxBuildProbeDistance : UInt16 := 0
  hashMaxProbeDistance : UInt16 := 0
  hashTableLoadFactorPpm : UInt32 := 0
  deriving DecidableEq, Repr, Inhabited

namespace TimingSummaryPayload

/-- The record at the start of a session. -/
def initial : TimingSummaryPayload where
  version := timingSummaryVersion
  flags := timingFlagEstimatedCycles
  clockHz := timingDefaultClockHz

/-! ## Configuration -/

def onConfigure (t : TimingSummaryPayload) (innerTotal outerTotal : UInt32) :
    TimingSummaryPayload :=
  { t with
    innerRows := innerTotal
    outerRows := outerTotal
    bytesRx := t.bytesRx + 16
    configCycles := t.configCycles + 16 }

/-- An ACK frame of fifteen bytes. -/
def onAck (t : TimingSummaryPayload) : TimingSummaryPayload :=
  { t with
    ackFrames := t.ackFrames + 1
    bytesTx := t.bytesTx + 15
    ackEmitCycles := t.ackEmitCycles + 15 }

def onConfigureAck (t : TimingSummaryPayload) : TimingSummaryPayload :=
  { t.onAck with configCycles := t.configCycles + 15 }

/-! ## Build phase -/

def onInnerFrame (t : TimingSummaryPayload) (buildBatchCycles : UInt64) : TimingSummaryPayload :=
  { t with
    innerFrames := t.innerFrames + 1
    bytesRx := t.bytesRx + buildBatchCycles.toUInt32
    buildRxCycles := t.buildRxCycles + buildBatchCycles }

def onBuildSteps (t : TimingSummaryPayload) (hashSteps : UInt32) : TimingSummaryPayload :=
  let t := { t with buildComputeCycles := t.buildComputeCycles + hashSteps.toUInt64 * 2 }
  if 0 < hashSteps then
    { t with
      hashBuildCollisionSteps := t.hashBuildCollisionSteps + (hashSteps - 1)
      hashMaxBuildProbeDistance :=
        if t.hashMaxBuildProbeDistance.toUInt32 < hashSteps then hashSteps.toUInt16
        else t.hashMaxBuildProbeDistance }
  else t

def onBuildOverflow (t : TimingSummaryPayload) : TimingSummaryPayload :=
  { t with hashOverflowErrors := t.hashOverflowErrors + 1 }

def onBuildInsert (t : TimingSummaryPayload) : TimingSummaryPayload :=
  { t with hashBuildInserts := t.hashBuildInserts + 1 }

def onBuildBatch (t : TimingSummaryPayload) (buildBatchCycles : UInt64) : TimingSummaryPayload :=
  { t with
    maxBuildBatchCycles :=
      if t.maxBuildBatchCycles.toUInt64 < buildBatchCycles then buildBatchCycles.toUInt32
      else t.maxBuildBatchCycles }

/-! ## Probe phase -/

def onOuterFrame (t : TimingSummaryPayload) (probeBatchCycles : UInt64) : TimingSummaryPayload :=
  { t with
    outerFrames := t.outerFrames + 1
    bytesRx := t.bytesRx + probeBatchCycles.toUInt32
    probeRxCycles := t.probeRxCycles + probeBatchCycles }

def onProbeSteps (t : TimingSummaryPayload) (hashSteps : UInt32) : TimingSummaryPayload :=
  let t := { t with
    probeComputeCycles := t.probeComputeCycles + hashSteps.toUInt64 * 2
    hashProbeLookups := t.hashProbeLookups + 1 }
  if 0 < hashSteps then
    { t with
      hashProbeCollisionSteps := t.hashProbeCollisionSteps + (hashSteps - 1)
      hashMaxProbeDistance :=
        if t.hashMaxProbeDistance.toUInt32 < hashSteps then hashSteps.toUInt16
        else t.hashMaxProbeDistance }
  else t

def onProbeHit (t : TimingSummaryPayload) : TimingSummaryPayload :=
  { t with hashProbeHits := t.hashProbeHits + 1 }

def onProbeMiss (t : TimingSummaryPayload) : TimingSummaryPayload :=
  { t with hashProbeMisses := t.hashProbeMisses + 1 }

def onResultFrame (t : TimingSummaryPayload) (resultFrameBytes : UInt32) : TimingSummaryPayload :=
  { t with
    resultFrames := t.resultFrames + 1
    bytesTx := t.bytesTx + resultFrameBytes
    resultEmitCycles := t.resultEmitCycles + resultFrameBytes.toUInt64
    maxResultFrameCycles :=
      if t.maxResultFrameCycles < resultFrameBytes then resultFrameBytes
      else t.maxResultFrameCycles }

def onProbeBatch (t : TimingSummaryPayload) (probeBatchCycles : UInt64) : TimingSummaryPayload :=
  { t with
    maxProbeBatchCycles :=
      if t.maxProbeBatchCycles.toUInt64 < probeBatchCycles then probeBatchCycles.toUInt32
      else t.maxProbeBatchCycles }

/-! ## Completion -/

/-- The STATUS frame and the TIMING frame itself. -/
def onFinalFrames (t : TimingSummaryPayload) : TimingSummaryPayload :=
  { t with
    ackFrames := t.ackFrames + 1
    bytesTx := t.bytesTx + (15 + 3 + 200)
    ackEmitCycles := t.ackEmitCycles + 15 }

/-- The totals over the phases. -/
def onTotals (t : TimingSummaryPayload) : TimingSummaryPayload :=
  let t := { t with
    buildTotalCycles := t.buildRxCycles + t.buildComputeCycles
    probeTotalCycles := t.probeRxCycles + t.probeComputeCycles + t.resultEmitCycles
    hashTableLoadFactorPpm :=
      (t.hashBuildInserts.toUInt64 * 1000000 / UInt64.ofNat htSlots).toUInt32 }
  { t with
    sessionTotalCycles :=
      t.configCycles + t.buildTotalCycles + t.probeTotalCycles + t.ackEmitCycles + (3 + 200) }

end TimingSummaryPayload

/-! ## The stream monitor -/

/-- The inputs from the passive stream monitor; all zero when there is none. -/
structure RtlStreamTiming where
  timingValid : UInt32 := 0
  timingClockHz : UInt32 := 0
  innerFrames : UInt32 := 0
  outerFrames : UInt32 := 0
  resultFrames : UInt32 := 0
  ackFrames : UInt32 := 0
  debugFrames : UInt32 := 0
  bytesRx : UInt32 := 0
  bytesTx : UInt32 := 0
  cycleCounter : UInt64 := 0
  tsConfigFirst : UInt64 := 0
  tsConfigAck : UInt64 := 0
  tsBuildFirst : UInt64 := 0
  tsBuildLast : UInt64 := 0
  tsBuildAckLast : UInt64 := 0
  tsProbeFirst : UInt64 := 0
  tsProbeLast : UInt64 := 0
  tsProbeAckLast : UInt64 := 0
  tsResultFirst : UInt64 := 0
  tsResultLast : UInt64 := 0
  deriving DecidableEq, Repr

def cyclesBetween (start finish : UInt64) : UInt64 :=
  if start ≠ 0 ∧ start ≤ finish then finish - start else 0

def applyRtlStreamTiming (t : TimingSummaryPayload) (rtl : RtlStreamTiming) :
    TimingSummaryPayload :=
  if rtl.tsConfigFirst ≠ 0 ∧ rtl.tsConfigFirst ≤ rtl.cycleCounter then
    let probeDone := if rtl.tsProbeAckLast ≠ 0 then rtl.tsProbeAckLast else rtl.cycleCounter
    { t with
      flags :=
        if rtl.timingValid = 0 then timingFlagRtlStreamCycles ||| timingFlagEstimatedCycles
        else timingFlagRtlStreamCycles
      clockHz := if rtl.timingClockHz ≠ 0 then rtl.timingClockHz else timingDefaultClockHz
      innerFrames := rtl.innerFrames
      outerFrames := rtl.outerFrames
      resultFrames := rtl.resultFrames
      ackFrames := rtl.ackFrames
      debugFrames := rtl.debugFrames
      bytesRx := rtl.bytesRx
      bytesTx := rtl.bytesTx
      sessionTotalCycles := cyclesBetween rtl.tsConfigFirst rtl.cycleCounter
      configCycles := cyclesBetween rtl.tsConfigFirst rtl.tsConfigAck
      buildRxCycles := cyclesBetween rtl.tsBuildFirst rtl.tsBuildLast
      buildComputeCycles := cyclesBetween rtl.tsBuildLast rtl.tsBuildAckLast
      buildTotalCycles := cyclesBetween rtl.tsBuildFirst rtl.tsBuildAckLast
      probeRxCycles := cyclesBetween rtl.tsProbeFirst rtl.tsProbeLast
      probeComputeCycles := cyclesBetween rtl.tsProbeLast rtl.tsResultFirst
      resultEmitCycles := cyclesBetween rtl.tsResultFirst rtl.tsResultLast
      probeTotalCycles := cyclesBetween rtl.tsProbeFirst probeDone }
  else t

end FpgaHashJoin
