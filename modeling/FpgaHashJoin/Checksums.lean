import Mathlib.Tactic

/-!
# Internet checksum and CRC-32

The one's complement sum of 16-bit words, in which a carry out of the highest bit is added at
the lowest one, and the CRC-32 as a shift register over the bits of a message. The sum only
depends on the sum of the words as natural numbers (`toNat_onesSum`); this is how an
implementation that collects the carries and folds them at the end is compared with it.
-/

namespace Checksums

/-! ## One's complement sums -/

/-- Addition with end-around carry. -/
def onesAdd (a b : BitVec 16) : BitVec 16 :=
  BitVec.ofNat 16 (if a.toNat + b.toNat < 65536 then a.toNat + b.toNat else a.toNat + b.toNat - 65535)

def onesSum (ws : List (BitVec 16)) : BitVec 16 := ws.foldl onesAdd 0

/-- The checksum of words: together with them it sums up to `0xFFFF`. -/
def internetChecksum (ws : List (BitVec 16)) : BitVec 16 := ~~~ onesSum ws

/-- The end-around representative of a sum: zero only for zero. -/
def endAround (n : Nat) : Nat := if n = 0 then 0 else (n - 1) % 65535 + 1

theorem endAround_lt (n : Nat) : endAround n < 65536 := by
  unfold endAround
  split <;> omega

theorem toNat_onesAdd (a b : BitVec 16) : (onesAdd a b).toNat = endAround (a.toNat + b.toNat) := by
  have ha := a.isLt
  have hb := b.isLt
  unfold onesAdd endAround
  rw [BitVec.toNat_ofNat]
  split_ifs <;> omega

theorem endAround_add (m n : Nat) : endAround (endAround m + n) = endAround (m + n) := by
  unfold endAround
  split_ifs <;> omega

theorem toNat_foldl_onesAdd (ws : List (BitVec 16)) (a : BitVec 16) :
    (ws.foldl onesAdd a).toNat = endAround (a.toNat + (ws.map BitVec.toNat).sum) := by
  induction ws generalizing a with
  | nil =>
    have ha := a.isLt
    unfold endAround
    rw [List.foldl_nil, List.map_nil, List.sum_nil]
    split <;> omega
  | cons w ws ih =>
    rw [List.foldl_cons, ih, toNat_onesAdd, endAround_add, List.map_cons, List.sum_cons, Nat.add_assoc]

/-- **The one's complement sum is a function of the sum.** -/
theorem toNat_onesSum (ws : List (BitVec 16)) :
    (onesSum ws).toNat = endAround (ws.map BitVec.toNat).sum := by
  rw [onesSum, toNat_foldl_onesAdd]
  exact congrArg endAround (Nat.zero_add _)

/-- **Words with their checksum among them sum up to `0xFFFF`**, wherever it stands. -/
theorem onesSum_internetChecksum (ws vs : List (BitVec 16)) :
    onesSum (ws ++ internetChecksum (ws ++ vs) :: vs) = 0xFFFF := by
  have hsum := toNat_onesSum (ws ++ vs)
  have hlt := (onesSum (ws ++ vs)).isLt
  have hnot : (internetChecksum (ws ++ vs)).toNat = 65535 - (onesSum (ws ++ vs)).toNat := by
    rw [internetChecksum, BitVec.toNat_not]
  apply BitVec.eq_of_toNat_eq
  rw [toNat_onesSum]
  simp only [List.map_append, List.map_cons, List.sum_append, List.sum_cons] at hsum ⊢
  rw [hnot, hsum]
  rw [hsum] at hlt
  change _ = 65535
  generalize (ws.map BitVec.toNat).sum = m at *
  generalize (vs.map BitVec.toNat).sum = n at *
  unfold endAround at *
  split_ifs at * <;> omega

/-- Two rounds of adding the carries to the low half. -/
theorem foldCarries_eq {n : Nat} (hpos : 0 < n) (hn : n < 2 ^ 20) :
    let once := n % 65536 + n / 65536
    once % 65536 + once / 65536 = endAround n := by
  intro once
  unfold endAround
  rw [if_neg (by omega)]
  omega

/-! ## CRC-32 -/

/-- The bits of a byte in the order of transmission. -/
def bitsOf (b : UInt8) : List Bool := (List.range 8).map fun k => b.toBitVec.getLsbD k

/-- The shift register of the reflected polynomial takes a bit. -/
def crcBit (c : BitVec 32) (bit : Bool) : BitVec 32 :=
  if c.getLsbD 0 ^^ bit then (c >>> 1) ^^^ 0xEDB88320 else c >>> 1

def crcRegister (bs : List UInt8) : BitVec 32 := (bs.flatMap bitsOf).foldl crcBit 0xFFFFFFFF

/-- The CRC-32 of a message. -/
def crc32 (bs : List UInt8) : BitVec 32 := ~~~ crcRegister bs

theorem crcRegister_snoc (bs : List UInt8) (b : UInt8) :
    crcRegister (bs ++ [b]) = (bitsOf b).foldl crcBit (crcRegister bs) := by
  rw [crcRegister, List.flatMap_append, List.foldl_append, List.flatMap_singleton]
  rfl

/-- The check value of the CRC-32: the digits 1 to 9. -/
example : crc32 [0x31, 0x32, 0x33, 0x34, 0x35, 0x36, 0x37, 0x38, 0x39] = 0xCBF43926 := by
  decide +kernel

end Checksums
