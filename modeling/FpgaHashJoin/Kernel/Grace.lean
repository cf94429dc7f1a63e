import FpgaHashJoin.Kernel.Stream
import FpgaHashJoin.LinearHashTable

/-!
# The Grace hash join engine

`hash_join_grace.hpp`: the rows of both sides are distributed over partitions in external
memory, then the partitions are joined one after the other with the block-RAM table.

The two distribution phases differ in the message type they expect, the phase they report,
the number of rows, and where and how many rows a partition may hold; they are one
definition with these values as parameters. An early `return` of the source is a result
code in the loop state, under which the remaining iterations do nothing. Memory and array
accesses are checked, an access out of bounds is a fault.
-/

namespace FpgaHashJoin

open Process

structure GraceHashEngine where
  innerCounts : Nat → Nat
  outerCounts : Nat → Nat
  deriving Inhabited

/-- The difference of two 32-bit counters, which wraps around. -/
def subU32 (a b : Nat) : Nat := (UInt32.ofNat a - UInt32.ofNat b).toNat

/-- The credit for the given number of rows still to come. -/
def creditFor (remaining : Nat) : UInt16 :=
  if remaining < rxCreditTuples then UInt16.ofNat remaining else UInt16.ofNat rxCreditTuples

namespace GraceHashEngine

def partitionOf (key : Int64) (K : Nat) : Nat :=
  ((key.toUInt64 * 2654435761) >>> 32).toUInt32.toNat % K

def packTid (tid : Tid) : Int64 :=
  ((tid.blkno.toUInt64 <<< 32) ||| (tid.offno.toUInt64 <<< 16)).toInt64

def unpackTid (w : Int64) : Tid :=
  ⟨(w.toUInt64 >>> 32).toUInt32, ((w.toUInt64 >>> 16) &&& 0xFFFF).toUInt16⟩

/-! ## Distribution -/

/-- What the distribution of one side depends on. -/
structure Side where
  msg : DataMsg
  phase : Phase
  total : Nat
  maxPerSlot : Nat
  base : Nat
  slotWords : Nat

/-- The state of a distribution loop. `err` is the code the source has returned. -/
structure PartitionVars where
  ddr2 : Nat → Int64
  counts : Nat → Nat
  received : Nat
  frame : Nat
  err : FpgaError

/-- The body of the tuple loop for tuple `i` of a frame of `count` tuples. -/
def storeTuple (side : Side) (keytype : UInt8) (K count : Nat) (v : PartitionVars) (i : Nat) :
    KProc PartitionVars :=
  if v.err ≠ .none then pure v
  else do
    let t ← rxTuple keytype
    let p := partitionOf t.key K
    Proc.require (p < graceMaxK)
    if side.maxPerSlot ≤ v.counts p then do
      Proc.forRange (count - (i + 1)) (fun _ _ => rxDiscardTuple keytype) ()
      Proc.put (.error FpgaError.overflow.code)
      return { v with err := .overflow }
    else do
      let idx := side.base + p * side.slotWords + v.counts p * graceWordsPerTuple
      Proc.require (idx + 1 < graceDdr2TotalWords)
      return { v with
        ddr2 := Function.update (Function.update v.ddr2 idx t.key) (idx + 1) (packTid t.tid)
        counts := Function.update v.counts p (v.counts p + 1)
        received := v.received + 1 }

/-- Acknowledge a frame whose tuples have been stored. -/
def partitionAck (side : Side) (sessionId : UInt8) (v : PartitionVars) :
    KProc (PartitionVars ⊕ PartitionVars) :=
  if v.err ≠ .none then return .inr v
  else do
    Proc.put (.ack
      { phase := side.phase.code
        sessionId
        credit := creditFor (subU32 side.total v.received)
        rowsProcessed := UInt32.ofNat v.received })
    return .inl { v with frame := v.frame + 1 }

/-- Take one frame. -/
def partitionFrame (side : Side) (keytype : UInt8) (K : Nat) (sessionId : UInt8)
    (v : PartitionVars) : KProc (PartitionVars ⊕ PartitionVars) := do
  let msgType ← rxByte .msgType
  let count ← rxU16 .count
  if msgType = MsgType.reset.code then do
    Proc.put (.ack { phase := Phase.idle.code, sessionId })
    return .inr { v with err := .badState }
  else if msgType ≠ side.msg.type.code then do
    Proc.put (.error FpgaError.badState.code)
    return .inr { v with err := .badState }
  else do
    let v ← Proc.forRange count.toNat (storeTuple side keytype K count.toNat) v
    partitionAck side sessionId v

/-- One iteration of the frame loop. Its bound is computed with 32 bits. -/
def partitionBody (side : Side) (keytype : UInt8) (K : Nat) (sessionId : UInt8)
    (v : PartitionVars) : KProc (PartitionVars ⊕ PartitionVars) :=
  if ¬ v.frame ≤ (UInt32.ofNat side.total + 1).toNat then pure (.inr v)
  else if side.total ≤ v.received then pure (.inr v)
  else partitionFrame side keytype K sessionId v

def buildPartitions (side : Side) (keytype : UInt8) (K : Nat) (sessionId : UInt8)
    (ddr2 : Nat → Int64) (counts : Nat → Nat) : KProc PartitionVars :=
  .iter (partitionBody side keytype K sessionId) ⟨ddr2, counts, 0, 0, .none⟩

def innerSide (innerTotal : Nat) : Side where
  msg := .inner
  phase := .building
  total := innerTotal
  maxPerSlot := htMaxRows
  base := 0
  slotWords := graceInnerSlotWords

def outerSide (outerTotal outerSlotWords : Nat) : Side where
  msg := .outer
  phase := .probing
  total := outerTotal
  maxPerSlot := outerSlotWords / graceWordsPerTuple
  base := graceOuterAreaBase
  slotWords := outerSlotWords

/-- Distribute the inner rows. Both sets of partition counters are cleared first. -/
def buildInnerPartitions (innerTotal : Nat) (keytype : UInt8) (K : Nat) (sessionId : UInt8)
    (ddr2 : Nat → Int64) : KProc PartitionVars :=
  buildPartitions (innerSide innerTotal) keytype K sessionId ddr2 fun _ => 0

/-- Distribute the outer rows. -/
def buildOuterPartitions (outerTotal outerSlotWords : Nat) (keytype : UInt8) (K : Nat)
    (sessionId : UInt8) (ddr2 : Nat → Int64) (outerCounts : Nat → Nat) : KProc PartitionVars :=
  buildPartitions (outerSide outerTotal outerSlotWords) keytype K sessionId ddr2 outerCounts

/-! ## Join -/

structure JoinVars where
  ht : LinearHashTable
  resultBuf : Nat → ResultPair
  bufCnt : Nat
  matched : Nat
  err : FpgaError

/-- The tuple that is stored at an address. -/
def loadTuple (ddr2 : Nat → Int64) (idx : Nat) : KProc InputTuple := do
  Proc.require (idx + 1 < graceDdr2TotalWords)
  return (ddr2 idx, unpackTid (ddr2 (idx + 1)))

/-- The first pairs of the result buffer. -/
def bufferedPairs (resultBuf : Nat → ResultPair) (count : Nat) : List ResultPair :=
  (List.range count).map resultBuf

def joinBuild (ddr2 : Nat → Int64) (p : Nat) (v : JoinVars) (i : Nat) : KProc JoinVars :=
  if v.err ≠ .none then pure v
  else do
    let t ← loadTuple ddr2 (p * graceInnerSlotWords + i * graceWordsPerTuple)
    let (err, ht, _) := v.ht.build t.key t.tid
    if err ≠ .none then do
      Proc.put (.error err.code)
      return { v with ht, err }
    else return { v with ht }

def joinProbe (ddr2 : Nat → Int64) (outerSlotWords p : Nat) (v : JoinVars) (j : Nat) :
    KProc JoinVars := do
  let t ← loadTuple ddr2
    (graceOuterAreaBase + p * outerSlotWords + j * graceWordsPerTuple)
  match (v.ht.probe t.key).1 with
  | none => return v
  | some innerTid => do
    Proc.require (v.bufCnt < txBufSize)
    let v := { v with
      resultBuf := Function.update v.resultBuf v.bufCnt (innerTid, t.tid)
      bufCnt := v.bufCnt + 1
      matched := v.matched + 1 }
    if v.bufCnt = txBufSize then do
      Proc.put (.results (bufferedPairs v.resultBuf v.bufCnt))
      return { v with bufCnt := 0 }
    else return v

def joinPartition (g : GraceHashEngine) (ddr2 : Nat → Int64) (outerSlotWords : Nat)
    (v : JoinVars) (p : Nat) : KProc JoinVars :=
  if v.err ≠ .none then pure v
  else do
    Proc.require (p < graceMaxK)
    let v ← Proc.forRange (g.innerCounts p) (joinBuild ddr2 p) { v with ht := v.ht.reset }
    if v.err ≠ .none then return v
    else do
      let v ← Proc.forRange (g.outerCounts p) (joinProbe ddr2 outerSlotWords p)
        { v with bufCnt := 0 }
      Proc.when (0 < v.bufCnt) (Proc.put (.results (bufferedPairs v.resultBuf v.bufCnt)))
      return v

def joinAllPartitions (g : GraceHashEngine) (K outerSlotWords : Nat) (ddr2 : Nat → Int64)
    (ht : LinearHashTable) (resultBuf : Nat → ResultPair) : KProc JoinVars :=
  Proc.forRange K (joinPartition g ddr2 outerSlotWords) ⟨ht, resultBuf, 0, 0, .none⟩

end GraceHashEngine

end FpgaHashJoin
