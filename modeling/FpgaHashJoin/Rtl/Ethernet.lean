import FpgaHashJoin.Frames

/-!
# Ethernet, IPv4 and UDP headers

The byte selections that the receive filter and the transmit framer share.
-/

namespace FpgaHashJoin

/-- Byte `k` of a word, from the least significant one. -/
def byteOf {w : Nat} (x : BitVec w) (k : Nat) : UInt8 := .ofBitVec (x.extractLsb' (8 * k) 8)

/-- The word with byte `k` replaced. -/
def setByte {w : Nat} (x : BitVec w) (k : Nat) (b : UInt8) : BitVec w :=
  (x &&& ~~~ ((255 : BitVec w) <<< (8 * k))) ||| (b.toBitVec.setWidth w <<< (8 * k))

/-- The bytes of a MAC address in the order of transmission. -/
def macByte (mac : BitVec 48) (idx : BitVec 3) : UInt8 :=
  if idx = 0 then byteOf mac 5
  else if idx = 1 then byteOf mac 4
  else if idx = 2 then byteOf mac 3
  else if idx = 3 then byteOf mac 2
  else if idx = 4 then byteOf mac 1
  else byteOf mac 0

/-- The bytes of an IPv4 address in the order of transmission. -/
def ipByte (ip : BitVec 32) (idx : BitVec 2) : UInt8 :=
  if idx = 0 then byteOf ip 3
  else if idx = 1 then byteOf ip 2
  else if idx = 2 then byteOf ip 1
  else byteOf ip 0

/-! ## Bytes of words -/

theorem getLsbD_setByte {w : Nat} {x : BitVec w} {k i : Nat} {b : UInt8} (hi : i < w) :
    (setByte x k b).getLsbD i =
      if 8 * k ≤ i ∧ i < 8 * k + 8 then b.toBitVec.getLsbD (i - 8 * k) else x.getLsbD i := by
  have h255 : ∀ j, (255 : BitVec w).getLsbD j = (decide (j < w) && decide (j < 8)) := by
    intro j
    rw [show (255 : BitVec w) = BitVec.ofNat w (2 ^ 8 - 1) from rfl, BitVec.getLsbD_ofNat,
      Nat.testBit_two_pow_sub_one]
  unfold setByte
  simp only [BitVec.getLsbD_or, BitVec.getLsbD_and, BitVec.getLsbD_not, BitVec.getLsbD_shiftLeft,
    BitVec.getLsbD_setWidth, h255, hi, decide_true, Bool.true_and]
  by_cases hlow : i < 8 * k
  · simp [hlow]
  · by_cases hhigh : i < 8 * k + 8
    · have h1 : i - 8 * k < 8 := by omega
      have h2 : i - 8 * k < w := by omega
      simp [hlow, hhigh, h1, h2, not_lt.mp hlow]
    · have h1 : ¬ i - 8 * k < 8 := by omega
      have h3 : b.toBitVec.getLsbD (i - 8 * k) = false := BitVec.getLsbD_of_ge _ _ (by omega)
      simp [hlow, hhigh, h1, h3]

theorem toNat_byteOf {w : Nat} (x : BitVec w) (k : Nat) :
    (byteOf x k).toNat = x.toNat / 256 ^ k % 256 := by
  unfold byteOf
  rw [UInt8.toNat_ofBitVec, BitVec.extractLsb'_toNat, Nat.shiftRight_eq_div_pow, Nat.pow_mul]

theorem byteOf_setByte {w : Nat} (x : BitVec w) {k : Nat} (j : Nat) (b : UInt8)
    (hk : 8 * k + 8 ≤ w) : byteOf (setByte x k b) j = if j = k then b else byteOf x j := by
  unfold byteOf
  refine UInt8.toBitVec_inj.mp (BitVec.eq_of_getLsbD_eq fun i hi => ?_)
  by_cases hj : j = k
  · subst hj
    rw [if_pos rfl, UInt8.toBitVec_ofBitVec, BitVec.getLsbD_extractLsb', getLsbD_setByte (by omega),
      if_pos (by omega)]
    simp [hi]
  · rw [if_neg hj, UInt8.toBitVec_ofBitVec, UInt8.toBitVec_ofBitVec, BitVec.getLsbD_extractLsb',
      BitVec.getLsbD_extractLsb']
    by_cases hw : 8 * j + i < w
    · rw [getLsbD_setByte hw, if_neg (by omega)]
    · rw [BitVec.getLsbD_of_ge _ _ (not_lt.mp hw), BitVec.getLsbD_of_ge _ _ (not_lt.mp hw)]
end FpgaHashJoin
