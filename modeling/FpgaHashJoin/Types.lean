import Mathlib.Tactic

/-!
# Constants and wire data

The constants and the data of `hash_join_types.hpp`. Enumerations are inductive types with
their wire code; a field that the code keeps as a raw byte stays a byte.
-/

namespace FpgaHashJoin

/-! ## Constants -/

def htLog2Slots : Nat := 14
def htSlots : Nat := 1 <<< htLog2Slots
def htMaxRows : Nat := htSlots * 3 / 4
def maxProbeDist : Nat := 16
def rxBufTuples : Nat := 256
def rxCreditTuples : Nat := 512
def txBufSize : Nat := 256
def resultFlushPairs : Nat := 118
def ackBatchFrames : Nat := 2

def graceWordsPerTuple : Nat := 2
def graceMaxK : Nat := 256
def graceInnerSlotWords : Nat := htMaxRows * graceWordsPerTuple
def graceOuterAreaBase : Nat := graceMaxK * graceInnerSlotWords
def graceDdr2TotalWords : Nat := 16 * 1024 * 1024
def graceMaxInnerRows : Nat := graceMaxK * htMaxRows

theorem htSlots_eq : htSlots = 16384 := rfl
@[simp] theorem htMaxRows_eq : htMaxRows = 12288 := rfl
@[simp] theorem maxProbeDist_eq : maxProbeDist = 16 := rfl
theorem rxBufTuples_eq : rxBufTuples = 256 := rfl
@[simp] theorem rxCreditTuples_eq : rxCreditTuples = 512 := rfl
theorem txBufSize_eq : txBufSize = 256 := rfl
@[simp] theorem resultFlushPairs_eq : resultFlushPairs = 118 := rfl
@[simp] theorem ackBatchFrames_eq : ackBatchFrames = 2 := rfl
@[simp] theorem graceWordsPerTuple_eq : graceWordsPerTuple = 2 := rfl
theorem graceMaxK_eq : graceMaxK = 256 := rfl
@[simp] theorem graceInnerSlotWords_eq : graceInnerSlotWords = 24576 := rfl
@[simp] theorem graceOuterAreaBase_eq : graceOuterAreaBase = 6291456 := rfl
@[simp] theorem graceDdr2TotalWords_eq : graceDdr2TotalWords = 16777216 := rfl
@[simp] theorem graceMaxInnerRows_eq : graceMaxInnerRows = 3145728 := rfl

/-! ## Protocol enumerations -/

inductive AlgorithmType where
  | algorithmA
  | algorithmB
  deriving DecidableEq, Repr

def AlgorithmType.code : AlgorithmType → UInt8
  | .algorithmA => 0x00
  | .algorithmB => 0x01

/-- Wire message types, the first byte of every frame. -/
inductive MsgType where
  | configure
  | innerData
  | outerData
  | result
  | ack
  | status
  | error
  | reset
  | debug
  | timing
  deriving DecidableEq, Repr

def MsgType.code : MsgType → UInt8
  | .configure => 0x01
  | .innerData => 0x02
  | .outerData => 0x03
  | .result => 0x04
  | .ack => 0x05
  | .status => 0x06
  | .error => 0x07
  | .reset => 0x08
  | .debug => 0x09
  | .timing => 0x0A

theorem MsgType.code_inj {a b : MsgType} : a.code = b.code ↔ a = b := by
  cases a <;> cases b <;> decide

inductive FpgaError where
  | none
  | overflow
  | invalidCmd
  | badState
  | ddrFault
  | duplicateKey
  deriving DecidableEq, Repr

def FpgaError.code : FpgaError → UInt8
  | .none => 0x00
  | .overflow => 0x01
  | .invalidCmd => 0x02
  | .badState => 0x03
  | .ddrFault => 0x04
  | .duplicateKey => 0x05

/-- Kernel phases, as reported in ACK and STATUS frames. -/
inductive Phase where
  | idle
  | building
  | probing
  | done
  deriving DecidableEq, Repr

def Phase.code : Phase → UInt8
  | .idle => 0
  | .building => 1
  | .probing => 2
  | .done => 3

inductive KeyType where
  | int32
  | int64
  deriving DecidableEq, Repr

def KeyType.code : KeyType → UInt8
  | .int32 => 0x01
  | .int64 => 0x02

/-- The kernel takes every key type byte other than `KEY_INT64` as a 32-bit key. -/
def KeyType.ofCode (b : UInt8) : KeyType :=
  if b = KeyType.int64.code then .int64 else .int32

@[simp] theorem KeyType.ofCode_code (k : KeyType) : KeyType.ofCode k.code = k := by
  cases k <;> rfl

/-- The width of a tuple on the wire. -/
def KeyType.tupleBytes : KeyType → Nat
  | .int32 => 10
  | .int64 => 14

/-! ## Wire data -/

/-- A tuple identifier of PostgreSQL. -/
structure Tid where
  blkno : UInt32
  offno : UInt16
  deriving DecidableEq, Repr, Inhabited

/-- A join key with the tuple identifier of its row. -/
abbrev InputTuple := Int64 × Tid

abbrev InputTuple.key (t : InputTuple) : Int64 := t.1
abbrev InputTuple.tid (t : InputTuple) : Tid := t.2

/-- The identifiers of an inner row and of an outer row that match. -/
abbrev ResultPair := Tid × Tid

abbrev ResultPair.innerTid (p : ResultPair) : Tid := p.1
abbrev ResultPair.outerTid (p : ResultPair) : Tid := p.2

structure ConfigurePayload where
  algorithm : UInt8
  keyType : UInt8
  rxBufSlots : UInt16
  innerCount : UInt32
  outerCount : UInt32
  sessionId : UInt8
  deriving DecidableEq, Repr

/-- The payload of ACK and STATUS frames; the host calls it `AckInfo`. -/
structure StatusPayload where
  phase : UInt8 := Phase.idle.code
  sessionId : UInt8 := 0
  credit : UInt16 := 0
  rowsProcessed : UInt32 := 0
  rowsMatched : UInt32 := 0
  deriving DecidableEq, Repr

/-- What a key becomes when it is sent with the given width and read back: a 32-bit key is
cut to its low half and sign-extended. -/
def KeyType.wireKey : KeyType → Int64 → Int64
  | .int32, k => k.toInt32.toInt64
  | .int64, k => k

def KeyType.wire (w : KeyType) (t : InputTuple) : InputTuple := (w.wireKey t.key, t.tid)

/-- The keys that the width can carry. -/
def KeyType.InRange : KeyType → Int64 → Prop
  | .int32, k => -2 ^ 31 ≤ k.toInt ∧ k.toInt < 2 ^ 31
  | .int64, _ => True

instance (w : KeyType) (k : Int64) : Decidable (w.InRange k) :=
  match w with
  | .int32 => inferInstanceAs (Decidable (_ ∧ _))
  | .int64 => inferInstanceAs (Decidable True)

theorem KeyType.wireKey_eq {w : KeyType} {k : Int64} (h : w.InRange k) : w.wireKey k = k := by
  cases w with
  | int64 => rfl
  | int32 =>
    obtain ⟨hlo, hhi⟩ := h
    apply Int64.toInt.inj
    rw [KeyType.wireKey, Int32.toInt_toInt64, Int64.toInt_toInt32]
    exact Int.bmod_eq_of_le (by omega) (by omega)

theorem KeyType.map_wire_eq {w : KeyType} {ts : List InputTuple}
    (h : ∀ t ∈ ts, w.InRange t.key) : ts.map w.wire = ts := by
  refine (List.map_congr_left fun t ht => ?_).trans (List.map_id ts)
  exact Prod.ext (KeyType.wireKey_eq (h t ht)) rfl

end FpgaHashJoin
