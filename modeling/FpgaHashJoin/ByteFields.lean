import Mathlib.Tactic

/-!
# Fields of a byte string that arrives byte by byte

A parser that sees one byte at a time keeps flags ("so far this field has the expected
bytes") and registers ("the bytes of this field that have come"). `Fits` and `Captured` say
what such a flag and such a register mean for the bytes received so far, and how one more
byte changes that. Once the field is complete they speak of its bytes, `slice bs lo n`.
-/

namespace ByteFields

/-- The `n` bytes from position `lo` on. -/
def slice (bs : List UInt8) (lo n : Nat) : List UInt8 := (bs.drop lo).take n

/-- The value of a field, most significant byte first. -/
def beNat (bs : List UInt8) : Nat := bs.foldl (fun v b => 256 * v + b.toNat) 0

/-- The bytes of the field at `lo` that have come pass their tests. -/
def Fits (lo : Nat) (tests : List (UInt8 → Bool)) (bs : List UInt8) : Prop :=
  ∀ k t b, tests[k]? = some t → bs[lo + k]? = some b → t b = true

/-- The bytes of the field at `lo` that have come are those of the number `v` of `n` bytes. -/
def Captured (v lo n : Nat) (bs : List UInt8) : Prop :=
  ∀ k b, k < n → bs[lo + k]? = some b → v / 256 ^ (n - 1 - k) % 256 = b.toNat

/-- The tests for the given bytes. -/
def exactly (xs : List UInt8) : List (UInt8 → Bool) := xs.map fun x b => b == x

variable {lo n v : Nat} {tests : List (UInt8 → Bool)} {bs : List UInt8} {b : UInt8}

/-! ## Slices -/

theorem slice_append {more : List UInt8} (h : lo + n ≤ bs.length) :
    slice (bs ++ more) lo n = slice bs lo n := by
  unfold slice
  rw [List.drop_append_of_le_length (by omega), List.take_append_of_le_length]
  rw [List.length_drop]
  omega

theorem length_slice (h : lo + n ≤ bs.length) : (slice bs lo n).length = n := by
  unfold slice
  rw [List.length_take, List.length_drop]
  omega

theorem getElem?_slice {k : Nat} (h : k < n) : (slice bs lo n)[k]? = bs[lo + k]? := by
  unfold slice
  rw [List.getElem?_take_of_lt h, List.getElem?_drop]

theorem slice_succ (h : lo + n = bs.length) :
    slice (bs ++ [b]) lo (n + 1) = slice bs lo n ++ [b] := by
  unfold slice
  have hlen : (bs.drop lo).length = n := by
    rw [List.length_drop]
    omega
  rw [List.drop_append_of_le_length (by omega), List.take_of_length_le (by simp [hlen]),
    List.take_of_length_le hlen.le]

theorem slice_one (h : lo < bs.length) : slice bs lo 1 = [bs[lo]] := by
  unfold slice
  rw [List.drop_eq_getElem_cons h]
  rfl

theorem slice_two (h : lo + 1 < bs.length) : slice bs lo 2 = [bs[lo], bs[lo + 1]] := by
  unfold slice
  rw [List.drop_eq_getElem_cons (by omega), List.drop_eq_getElem_cons h]
  rfl

/-! ## One more byte -/

private theorem getElem?_snoc {k : Nat} {c : UInt8} (h : (bs ++ [b])[k]? = some c) :
    bs[k]? = some c ∨ k = bs.length ∧ c = b := by
  rcases Nat.lt_trichotomy k bs.length with hk | rfl | hk
  · rw [List.getElem?_append_left hk] at h
    exact .inl h
  · rw [List.getElem?_concat_length, Option.some_inj] at h
    exact .inr ⟨rfl, h.symm⟩
  · rw [List.getElem?_eq_none (by simp; omega)] at h
    cases h

private theorem getElem?_of_some {k : Nat} {c : UInt8} (h : bs[k]? = some c) :
    (bs ++ [b])[k]? = some c := by
  rw [List.getElem?_append_left (List.getElem?_eq_some_iff.mp h).1]
  exact h

theorem fits_of_length_le (h : bs.length ≤ lo) : Fits lo tests bs := by
  intro k t b _ hb
  rw [List.getElem?_eq_none (by omega)] at hb
  cases hb

theorem fits_snoc_of_out (h : bs.length < lo ∨ lo + tests.length ≤ bs.length) :
    Fits lo tests (bs ++ [b]) ↔ Fits lo tests bs := by
  constructor
  · intro hfits k t c ht hc
    exact hfits k t c ht (getElem?_of_some hc)
  · intro hfits k t c ht hc
    have hk : k < tests.length := (List.getElem?_eq_some_iff.mp ht).1
    rcases getElem?_snoc hc with hc | ⟨hpos, -⟩
    · exact hfits k t c ht hc
    · omega

theorem fits_snoc {k : Nat} {t : UInt8 → Bool} (hk : lo + k = bs.length)
    (ht : tests[k]? = some t) : Fits lo tests (bs ++ [b]) ↔ Fits lo tests bs ∧ t b = true := by
  constructor
  · intro hfits
    refine ⟨fun j t' c ht' hc => hfits j t' c ht' (getElem?_of_some hc), ?_⟩
    exact hfits k t b ht (by rw [hk, List.getElem?_concat_length])
  · rintro ⟨hfits, hb⟩ j t' c ht' hc
    rcases getElem?_snoc hc with hc | ⟨hpos, rfl⟩
    · exact hfits j t' c ht' hc
    · obtain rfl : j = k := by omega
      rw [ht, Option.some_inj] at ht'
      exact ht' ▸ hb

/-- One more byte, with the test for its position. -/
theorem fits_snoc_getD (hlo : lo ≤ bs.length) : Fits lo tests (bs ++ [b]) ↔
    Fits lo tests bs ∧ tests.getD (bs.length - lo) (fun _ => true) b = true := by
  by_cases hk : bs.length - lo < tests.length
  · rw [fits_snoc (k := bs.length - lo) (by omega) (List.getElem?_eq_getElem hk)]
    simp [List.getD, hk]
  · rw [fits_snoc_of_out (by omega)]
    simp [List.getD, List.getElem?_eq_none (not_lt.mp hk)]

theorem captured_of_length_le (h : bs.length ≤ lo) : Captured v lo n bs := by
  intro k b _ hb
  rw [List.getElem?_eq_none (by omega)] at hb
  cases hb

theorem Captured.snoc_of_out (h : Captured v lo n bs)
    (hout : bs.length < lo ∨ lo + n ≤ bs.length) : Captured v lo n (bs ++ [b]) := by
  intro k c hk hc
  rcases getElem?_snoc hc with hc | ⟨hpos, -⟩
  · exact h k c hk hc
  · omega

/-- The byte that has come is put in its place, and the others stay. -/
theorem Captured.snoc {v' k : Nat} (h : Captured v lo n bs) (hk : lo + k = bs.length)
    (hplace : v' / 256 ^ (n - 1 - k) % 256 = b.toNat)
    (hrest : ∀ j, j < n → j ≠ k →
      v' / 256 ^ (n - 1 - j) % 256 = v / 256 ^ (n - 1 - j) % 256) :
    Captured v' lo n (bs ++ [b]) := by
  intro j c hj hc
  rcases getElem?_snoc hc with hc | ⟨hpos, rfl⟩
  · have hlt : lo + j < bs.length := (List.getElem?_eq_some_iff.mp hc).1
    rw [hrest j hj (by omega)]
    exact h j c hj hc
  · obtain rfl : j = k := by omega
    exact hplace

/-! ## Complete fields -/

theorem beNat_snoc : beNat (bs ++ [b]) = 256 * beNat bs + b.toNat := by
  simp [beNat]

theorem beNat_lt (bs : List UInt8) : beNat bs < 256 ^ bs.length := by
  induction bs using List.reverseRecOn with
  | nil => simp [beNat]
  | append_singleton bs b ih =>
    rw [beNat_snoc, List.length_append, List.length_singleton, Nat.pow_succ]
    have := b.toNat_lt
    omega

theorem beNat_slice_lt : beNat (slice bs lo n) < 256 ^ n := by
  refine (beNat_lt _).trans_le (Nat.pow_le_pow_right (by decide) ?_)
  unfold slice
  exact List.length_take_le _ _

theorem Captured.eq_beNat (h : Captured v lo n bs) (hv : v < 256 ^ n)
    (hlen : lo + n ≤ bs.length) : v = beNat (slice bs lo n) := by
  induction n generalizing v with
  | zero =>
    have : v = 0 := by simpa using hv
    simp [this, slice, beNat]
  | succ n ih =>
    have hlast : lo + n < bs.length := by omega
    have hslice : slice bs lo (n + 1) = slice bs lo n ++ [bs[lo + n]] := by
      apply List.ext_getElem?
      intro k
      by_cases hk : k < n
      · rw [List.getElem?_append_left (by rw [length_slice (by omega)]; exact hk),
          getElem?_slice hk, getElem?_slice (by omega)]
      · rw [List.getElem?_append_right (by rw [length_slice (by omega)]; omega),
          length_slice (by omega)]
        by_cases hkn : k = n
        · subst hkn
          rw [getElem?_slice (by omega), List.getElem?_eq_getElem hlast]
          simp
        · rw [List.getElem?_eq_none (by rw [length_slice hlen]; omega),
            List.getElem?_eq_none (by simp; omega)]
    have hlow : v % 256 = (bs[lo + n]).toNat := by
      have := h n _ (by omega) (List.getElem?_eq_getElem hlast)
      simpa using this
    have hhigh : Captured (v / 256) lo n bs := by
      intro k c hk hc
      rw [Nat.div_div_eq_div_mul, ← Nat.pow_succ']
      have := h k c (by omega) hc
      rwa [show n + 1 - 1 - k = (n - 1 - k) + 1 by omega] at this
    have hdiv : v / 256 < 256 ^ n := by
      rw [Nat.pow_succ] at hv
      exact Nat.div_lt_of_lt_mul (by omega)
    rw [hslice, beNat_snoc, ← ih hhigh hdiv (by omega), ← hlow]
    omega

theorem fits_iff_of_length (hlen : lo + tests.length ≤ bs.length) :
    Fits lo tests bs ↔ ∀ (k : Nat) (t : UInt8 → Bool), tests[k]? = some t →
      ∃ b, (slice bs lo tests.length)[k]? = some b ∧ t b = true := by
  constructor
  · intro h k t ht
    have hk : k < tests.length := (List.getElem?_eq_some_iff.mp ht).1
    have hget := List.getElem?_eq_getElem (show lo + k < bs.length by omega)
    exact ⟨_, (getElem?_slice hk).trans hget, h k t _ ht hget⟩
  · intro h k t b ht hb
    have hk : k < tests.length := (List.getElem?_eq_some_iff.mp ht).1
    obtain ⟨c, hc, htc⟩ := h k t ht
    rw [getElem?_slice hk, hb, Option.some_inj] at hc
    exact hc ▸ htc

/-- A complete field fits the given bytes if it consists of them. -/
theorem fits_exactly_iff {xs : List UInt8} (hlen : lo + xs.length ≤ bs.length) :
    Fits lo (exactly xs) bs ↔ slice bs lo xs.length = xs := by
  have hcount : (exactly xs).length = xs.length := List.length_map _
  rw [fits_iff_of_length (by rw [hcount]; exact hlen), hcount]
  constructor
  · intro h
    apply List.ext_getElem?
    intro k
    by_cases hk : k < xs.length
    · obtain ⟨b, hb, ht⟩ := h k (fun b => b == xs[k]) (by simp [exactly, hk])
      rw [hb, List.getElem?_eq_getElem hk, eq_of_beq ht]
    · rw [List.getElem?_eq_none (by rw [length_slice hlen]; omega),
        List.getElem?_eq_none (by omega)]
  · intro h k t ht
    obtain ⟨x, hx, rfl⟩ : ∃ x, xs[k]? = some x ∧ (fun b => b == x) = t := by
      simpa [exactly, List.getElem?_map] using ht
    exact ⟨x, by rw [h, hx], by simp⟩

end ByteFields
