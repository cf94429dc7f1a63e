import FpgaHashJoin.Frames
import FpgaHashJoin.Process.Machine

/-!
# Stream access of the kernel

The kernel is a process that reads bytes and writes frames. Every read is labelled with the
field it belongs to. The guarded read at a frame boundary is the only one that can be
answered with a time-out: the watchdog then reports the kernel idle and ends the session.
-/

namespace FpgaHashJoin

open Process LittleEndian

/-- The field that a byte is read for. -/
inductive Site where
  | msgType
  | count
  | config
  | key
  | tid
  deriving DecidableEq, Repr

abbrev KProc := Proc Site UInt8 TxFrame

/-- The build variant of the kernel: `synthesis` and `disableDebug` stand for the macros
`__SYNTHESIS__` and `__SYNTHESIS_DISABLE_DEBUG__`, `rtl` for the inputs from the stream
monitor. -/
structure Build where
  synthesis : Bool
  disableDebug : Bool
  rtl : RtlStreamTiming

/-- The C simulation, which runs a single session. -/
def Build.csim (rtl : RtlStreamTiming) : Build := ⟨false, false, rtl⟩

def rxByte (site : Site) : KProc UInt8 := .read site

def rxU16 (site : Site) : KProc UInt16 := do
  let b0 ← rxByte site
  let b1 ← rxByte site
  return word16 b0 b1

def rxU32 (site : Site) : KProc UInt32 := do
  let b0 ← rxByte site
  let b1 ← rxByte site
  let b2 ← rxByte site
  let b3 ← rxByte site
  return word32 b0 b1 b2 b3

def rxI64 (site : Site) : KProc Int64 := do
  let b0 ← rxByte site
  let b1 ← rxByte site
  let b2 ← rxByte site
  let b3 ← rxByte site
  let b4 ← rxByte site
  let b5 ← rxByte site
  let b6 ← rxByte site
  let b7 ← rxByte site
  return (word64 b0 b1 b2 b3 b4 b5 b6 b7).toInt64

def rxTid : KProc Tid := do
  let blkno ← rxU32 .tid
  let offno ← rxU16 .tid
  return ⟨blkno, offno⟩

/-- A key of the session's width, sign-extended to 64 bits. -/
def rxKey (keytype : UInt8) : KProc Int64 :=
  if keytype = KeyType.int64.code then rxI64 .key
  else do
    let v ← rxU32 .key
    return v.toInt32.toInt64

def rxTuple (keytype : UInt8) : KProc InputTuple := do
  let key ← rxKey keytype
  let tid ← rxTid
  return (key, tid)

def rxDiscardTuple (keytype : UInt8) : KProc Unit := do
  let _ ← rxKey keytype
  let _ ← rxTid
  return ()

def emitDebug (b : Build) (level : DbgLevel) (code : DbgCode) (value : UInt32) : KProc Unit :=
  if b.synthesis && !b.disableDebug then .put (.debug level.code code.code value)
  else .ret ()

def rxWatchdogCycles : UInt32 := 350000000

/-- The first byte of a frame; `none` when the watchdog expired. -/
def rxByteGuarded (b : Build) (sessionId : UInt8) : KProc (Option UInt8) :=
  .poll .msgType fun
    | some v => .ret (some v)
    | none => do
      emitDebug b .warn .reset rxWatchdogCycles
      Proc.put (.ack
        { phase := Phase.idle.code, sessionId, credit := UInt16.ofNat rxCreditTuples })
      return none

/-! ## Reading what the host wrote -/

theorem rxU16_runs (site : Site) (v : UInt16) :
    Runs (rxU16 site) (tagged site (bytes16 v)) [] (.ret v) := by
  have h : Runs (rxU16 site) (tagged site (bytes16 v)) []
      (.ret (word16 v.toUInt8 (v >>> 8).toUInt8)) :=
    .recv rfl (.recv rfl (.refl _))
  rwa [word16_bytes16] at h

theorem rxU32_runs (site : Site) (v : UInt32) :
    Runs (rxU32 site) (tagged site (bytes32 v)) [] (.ret v) := by
  have h : Runs (rxU32 site) (tagged site (bytes32 v)) []
      (.ret (word32 v.toUInt8 (v >>> 8).toUInt8 (v >>> 16).toUInt8 (v >>> 24).toUInt8)) :=
    .recv rfl (.recv rfl (.recv rfl (.recv rfl (.refl _))))
  rwa [word32_bytes32] at h

theorem rxI64_runs (site : Site) (v : Int64) :
    Runs (rxI64 site) (tagged site (bytes64 v.toUInt64)) [] (.ret v) := by
  have h : Runs (rxI64 site) (tagged site (bytes64 v.toUInt64)) []
      (.ret (word64 v.toUInt64.toUInt8 (v.toUInt64 >>> 8).toUInt8 (v.toUInt64 >>> 16).toUInt8
        (v.toUInt64 >>> 24).toUInt8 (v.toUInt64 >>> 32).toUInt8 (v.toUInt64 >>> 40).toUInt8
        (v.toUInt64 >>> 48).toUInt8 (v.toUInt64 >>> 56).toUInt8).toInt64) :=
    .recv rfl (.recv rfl (.recv rfl (.recv rfl (.recv rfl (.recv rfl (.recv rfl
      (.recv rfl (.refl _))))))))
  rwa [word64_bytes64] at h

theorem rxTid_runs (t : Tid) :
    Runs rxTid (tagged .tid (TupleSerializer.putTid t)) [] (.ret t) := by
  rw [TupleSerializer.putTid, tagged_append]
  exact (rxU32_runs .tid t.blkno).seq_reads ((rxU16_runs .tid t.offno).seq_pure _)

/-- The reads that take a tuple of the given width. -/
def tupleReads (w : KeyType) (t : InputTuple) : List (Site × Option UInt8) :=
  tagged .key (match w with
    | .int32 => TupleSerializer.putI32 t.key.toInt32
    | .int64 => TupleSerializer.putI64 t.key) ++ tagged .tid (TupleSerializer.putTid t.tid)

theorem map_snd_tupleReads (w : KeyType) (t : InputTuple) :
    (tupleReads w t).map Prod.snd = (TupleSerializer.putTuple w t).map some := by
  cases w <;> simp [tupleReads, TupleSerializer.putTuple]

theorem rxKey_runs (w : KeyType) (k : Int64) :
    Runs (rxKey w.code) (tagged .key (match w with
      | .int32 => TupleSerializer.putI32 k.toInt32
      | .int64 => TupleSerializer.putI64 k)) [] (.ret (w.wireKey k)) := by
  cases w with
  | int32 =>
    exact (rxU32_runs .key k.toInt32.toUInt32).seq_pure _
  | int64 => exact rxI64_runs .key k

/-- **A tuple arrives with the key that the width carries.** -/
theorem rxTuple_runs (w : KeyType) (t : InputTuple) :
    Runs (rxTuple w.code) (tupleReads w t) [] (.ret (w.wire t)) :=
  (rxKey_runs w t.key).seq_reads ((rxTid_runs t.tid).seq_pure _)

end FpgaHashJoin
