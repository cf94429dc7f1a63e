import FpgaHashJoin.LittleEndian
import FpgaHashJoin.Timing

/-!
# Protocol frames

The frames of both directions and their bytes. A frame starts with the message type and a
16-bit count. `TxFrame` is what the kernel sends: its bytes are those of the write helpers
of `hash_join_kernel.hpp`, each with the TLAST flag of the stream. `HostFrame` is what the
host sends, with the bytes of `TupleSerializer`.
-/

namespace FpgaHashJoin

open LittleEndian

/-! ## Kernel to host -/

/-- A byte of the AXI stream with its end-of-packet flag. -/
structure AxisByte where
  data : UInt8
  last : Bool
  deriving DecidableEq, Repr

def txByte (v : UInt8) (last : Bool) : List AxisByte := [⟨v, last⟩]

def txU16 (v : UInt16) (last : Bool) : List AxisByte :=
  txByte v.toUInt8 false ++ txByte (v >>> 8).toUInt8 last

def txU32 (v : UInt32) (last : Bool) : List AxisByte :=
  txByte v.toUInt8 false ++ txByte (v >>> 8).toUInt8 false ++ txByte (v >>> 16).toUInt8 false ++
    txByte (v >>> 24).toUInt8 last

def txU64 (v : UInt64) (last : Bool) : List AxisByte :=
  txU32 v.toUInt32 false ++ txU32 (v >>> 32).toUInt32 last

def txHeader (type : MsgType) (count : UInt16) : List AxisByte :=
  txByte type.code false ++ txU16 count false

def txStatusFrame (type : MsgType) (p : StatusPayload) : List AxisByte :=
  txHeader type 1 ++ txByte p.phase false ++ txByte p.sessionId false ++ txU16 p.credit false ++
    txU32 p.rowsProcessed false ++ txU32 p.rowsMatched true

def txError (code : UInt8) : List AxisByte :=
  txHeader .error 1 ++ txByte code true

def txPair (p : ResultPair) (last : Bool) : List AxisByte :=
  txU32 p.innerTid.blkno false ++ txU16 p.innerTid.offno false ++
    txU32 p.outerTid.blkno false ++ txU16 p.outerTid.offno last

def txPairs : List ResultPair → List AxisByte
  | [] => []
  | p :: ps => txPair p ps.isEmpty ++ txPairs ps

def txResults (pairs : List ResultPair) : List AxisByte :=
  if pairs.isEmpty then [] else txHeader .result (UInt16.ofNat pairs.length) ++ txPairs pairs

/-- The two hundred bytes of the timing record. -/
def txTimingFields (t : TimingSummaryPayload) : List AxisByte :=
  txU16 t.version false ++ txU16 t.flags false ++ txU32 t.clockHz false ++
  txU32 t.innerRows false ++ txU32 t.outerRows false ++ txU32 t.matchedRows false ++
  txU32 t.innerFrames false ++ txU32 t.outerFrames false ++ txU32 t.resultFrames false ++
  txU32 t.ackFrames false ++ txU32 t.debugFrames false ++
  txU32 t.bytesRx false ++ txU32 t.bytesTx false ++
  txU64 t.sessionTotalCycles false ++ txU64 t.configCycles false ++
  txU64 t.buildRxCycles false ++ txU64 t.buildComputeCycles false ++
  txU64 t.buildTotalCycles false ++ txU64 t.probeRxCycles false ++
  txU64 t.probeComputeCycles false ++ txU64 t.resultEmitCycles false ++
  txU64 t.probeTotalCycles false ++ txU64 t.ackEmitCycles false ++
  txU64 t.rxWaitCycles false ++ txU64 t.txBlockedCycles false ++
  txU64 t.protocolWaitCycles false ++
  txU32 t.maxBuildBatchCycles false ++ txU32 t.maxProbeBatchCycles false ++
  txU32 t.maxResultFrameCycles false ++
  txU32 t.hashBuildInserts false ++ txU32 t.hashProbeLookups false ++
  txU32 t.hashProbeHits false ++ txU32 t.hashProbeMisses false ++
  txU32 t.hashOverflowErrors false ++ txU32 t.hashBuildCollisionSteps false ++
  txU32 t.hashProbeCollisionSteps false ++
  txU16 t.hashMaxBuildProbeDistance false ++ txU16 t.hashMaxProbeDistance false ++
  txU32 t.hashTableLoadFactorPpm true

def txTimingSummary (t : TimingSummaryPayload) : List AxisByte :=
  txHeader .timing timingSummaryCount ++ txTimingFields t

inductive DbgLevel where
  | debug
  | info
  | warn
  | error
  deriving DecidableEq, Repr

def DbgLevel.code : DbgLevel → UInt8
  | .debug => 0
  | .info => 1
  | .warn => 2
  | .error => 3

/-- The debug events that the kernel reports. -/
inductive DbgCode where
  | idleEnter
  | configure
  | buildBatch
  | buildDone
  | probeBatch
  | probeDone
  | reset
  | buildKey
  | probeKey
  | probeHit
  | kernelError
  deriving DecidableEq, Repr

def DbgCode.code : DbgCode → UInt16
  | .idleEnter => 0x0001
  | .configure => 0x0002
  | .buildBatch => 0x0003
  | .buildDone => 0x0004
  | .probeBatch => 0x0005
  | .probeDone => 0x0006
  | .reset => 0x0007
  | .buildKey => 0x0008
  | .probeKey => 0x0009
  | .probeHit => 0x000A
  | .kernelError => 0x00FF

def txDebug (level : UInt8) (code : UInt16) (value : UInt32) : List AxisByte :=
  txHeader .debug 1 ++ txByte level false ++ txU16 code false ++ txU32 value true

/-- A frame from the kernel to the host. Fields that the host reads as raw bytes are raw, so
that the type also covers frames with values the kernel never sends. -/
inductive TxFrame where
  | ack (p : StatusPayload)
  | status (p : StatusPayload)
  | error (code : UInt8)
  | results (pairs : List ResultPair)
  | timing (t : TimingSummaryPayload)
  | debug (level : UInt8) (code : UInt16) (value : UInt32)
  deriving DecidableEq, Repr

/-- The frame on the stream. -/
def TxFrame.axis : TxFrame → List AxisByte
  | .ack p => txStatusFrame .ack p
  | .status p => txStatusFrame .status p
  | .error code => txError code
  | .results pairs => txResults pairs
  | .timing t => txTimingSummary t
  | .debug level code value => txDebug level code value

def TxFrame.bytes (f : TxFrame) : List UInt8 := f.axis.map AxisByte.data

/-- RESULT frames have between one and `txBufSize` pairs; the other frames have a fixed
length. -/
def TxFrame.WellFormed : TxFrame → Prop
  | .results pairs => pairs ≠ [] ∧ pairs.length ≤ txBufSize
  | _ => True

/-! ## Host to kernel -/

namespace TupleSerializer

def putU8 (v : UInt8) : List UInt8 := [v]
def putU16 (v : UInt16) : List UInt8 := bytes16 v
def putU32 (v : UInt32) : List UInt8 := bytes32 v
def putI32 (v : Int32) : List UInt8 := putU32 v.toUInt32
def putI64 (v : Int64) : List UInt8 := bytes64 v.toUInt64
def putTid (t : Tid) : List UInt8 := putU32 t.blkno ++ putU16 t.offno

def putTuple (keyType : KeyType) (t : InputTuple) : List UInt8 :=
  (match keyType with
    | .int32 => putI32 t.key.toInt32
    | .int64 => putI64 t.key) ++ putTid t.tid

def serializeConfigure (p : ConfigurePayload) : List UInt8 :=
  putU8 MsgType.configure.code ++ putU16 1 ++ putU8 p.algorithm ++ putU8 p.keyType ++
    putU16 p.rxBufSlots ++ putU32 p.innerCount ++ putU32 p.outerCount ++ putU8 p.sessionId

/-- The first `min count maxCount` tuples as one frame, nothing if there are none. -/
def serializeBatch (keyType : KeyType) (msgType : MsgType) (tuples : List InputTuple)
    (count maxCount : Nat) : List UInt8 :=
  let limit := min count maxCount
  if limit = 0 then []
  else putU8 msgType.code ++ putU16 (UInt16.ofNat limit) ++
    (tuples.take limit).flatMap (putTuple keyType)

end TupleSerializer

open TupleSerializer

/-- The two kinds of DATA frames. -/
inductive DataMsg where
  | inner
  | outer
  deriving DecidableEq, Repr

def DataMsg.type : DataMsg → MsgType
  | .inner => .innerData
  | .outer => .outerData

/-- A frame from the host to the kernel. -/
inductive HostFrame where
  | configure (p : ConfigurePayload)
  | data (msg : DataMsg) (keyType : KeyType) (tuples : List InputTuple)
  | reset
  deriving DecidableEq, Repr

/-- The three bytes in front of the payload. -/
def hostHeader (type : MsgType) (count : Nat) : List UInt8 :=
  putU8 type.code ++ putU16 (UInt16.ofNat count)

/-- A DATA frame without tuples is the bare header; the serializer only makes the others. -/
def HostFrame.bytes : HostFrame → List UInt8
  | .configure p => serializeConfigure p
  | .data msg keyType tuples =>
    if tuples.isEmpty then hostHeader msg.type 0
    else serializeBatch keyType msg.type tuples tuples.length tuples.length
  | .reset => hostHeader .reset 0

def HostFrame.tuples : HostFrame → List InputTuple
  | .data _ _ ts => ts
  | _ => []

theorem HostFrame.bytes_data (msg : DataMsg) (w : KeyType) (ts : List InputTuple) :
    (HostFrame.data msg w ts).bytes =
      hostHeader msg.type ts.length ++ ts.flatMap (putTuple w) := by
  cases ts with
  | nil => simp [bytes]
  | cons t ts => simp [bytes, serializeBatch, hostHeader]

/-- The frames of which sequences are well-formed: data frames hold at most `rxBufTuples`
tuples. -/
def HostFrame.WellFormed : HostFrame → Prop
  | .data _ _ ts => ts.length ≤ rxBufTuples
  | _ => True

theorem toNat_frameCount {ts : List InputTuple} (h : ts.length ≤ rxBufTuples) :
    (UInt16.ofNat ts.length).toNat = ts.length := by
  have hsize : rxBufTuples < UInt16.size := by decide
  exact UInt16.toNat_ofNat_of_lt (h.trans_lt hsize)

theorem length_putTuple (w : KeyType) (t : InputTuple) : (putTuple w t).length = w.tupleBytes := by
  cases w <;> rfl

theorem HostFrame.bytes_ne_nil (f : HostFrame) : f.bytes ≠ [] := by
  cases f with
  | configure p => simp [bytes, serializeConfigure, putU8]
  | data msg w ts => rw [bytes_data]; simp [hostHeader, putU8]
  | reset => simp [bytes, hostHeader, putU8]

theorem TxFrame.bytes_ne_nil {f : TxFrame} (h : f.WellFormed) : f.bytes ≠ [] := by
  cases f with
  | results pairs => simp [bytes, axis, txResults, h.1, txHeader, txByte]
  | timing t => simp [bytes, axis, txTimingSummary, txHeader, txByte]
  | _ => simp [bytes, axis, txStatusFrame, txError, txDebug, txHeader, txByte]

end FpgaHashJoin
