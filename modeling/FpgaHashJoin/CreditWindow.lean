import Mathlib.Tactic

/-!
# A sender with a window, a credit and cumulative acknowledgements

A sender hands over `n` items in batches of at most `b`. It may have a bounded number of
batches under way, and it may only send what its credit allows. An acknowledgement brings a
new credit, which replaces the old one, and the number of items taken so far, which retires
the batches it covers.

The sender never sends a batch that is smaller than it has to be: batch `i` always has
`min b (n - i * b)` items, whatever the acknowledgements say (`Aligned`). So two numbers
describe the batches of a sender, how many have been sent and how many have been retired.
-/

namespace CreditWindow

/-- Where a sender is. -/
structure Window where
  sent : Nat := 0
  acked : Nat := 0
  credit : Nat := 0
  inflight : List Nat := []
  deriving DecidableEq, Repr

/-- Drop the batches that a cumulative count covers. The first number counts them. -/
def retire (target : Nat) : Nat → List Nat → Nat × Nat × List Nat
  | acked, [] => (0, acked, [])
  | acked, k :: ks =>
    if acked + k ≤ target then
      let r := retire target (acked + k) ks
      (r.1 + 1, r.2)
    else (0, acked, k :: ks)

namespace Window

/-- The next batch, if the credit allows one. A batch that the credit would cut is not sent,
unless it is all that remains. -/
def next (b n : Nat) (v : Window) : Option Nat :=
  if v.sent < n ∧ v.credit ≠ 0 then
    if v.credit < b ∧ v.credit < n - v.sent then none
    else some (min v.credit (min b (n - v.sent)))
  else none

def push (v : Window) (k : Nat) : Window :=
  { v with sent := v.sent + k, credit := v.credit - k, inflight := v.inflight ++ [k] }

/-- Send at most `slots` batches. -/
def fill (b n : Nat) : Nat → Window → Window
  | 0, v => v
  | slots + 1, v =>
    match v.next b n with
    | none => v
    | some k => fill b n slots (v.push k)

variable {b n slots k : Nat} {v : Window}

/-- A batch is sent if and only if rows remain and the credit covers the largest batch that
may be sent. -/
theorem next_eq_some (hb : 0 < b) :
    v.next b n = some k ↔ v.sent < n ∧ k = min b (n - v.sent) ∧ k ≤ v.credit := by
  unfold next
  split_ifs with hmore hcut
  · simp only [false_iff]
    omega
  · simp only [Option.some.injEq]
    omega
  · simp only [false_iff]
    omega

/-- What sending does to a window: it adds batches that the credit pays for. -/
theorem fill_spec (b n slots : Nat) (v : Window) :
    ∃ ks, (v.fill b n slots).inflight = v.inflight ++ ks ∧ ks.length ≤ slots ∧
      (v.fill b n slots).sent = v.sent + ks.sum ∧ (v.fill b n slots).acked = v.acked ∧
      (v.fill b n slots).credit = v.credit - ks.sum := by
  induction slots generalizing v with
  | zero => exact ⟨[], by simp [fill]⟩
  | succ slots ih =>
    unfold fill
    cases v.next b n with
    | none => exact ⟨[], by simp⟩
    | some k =>
      obtain ⟨ks, hin, hlen, hsent, hacked, hcredit⟩ := ih (v.push k)
      refine ⟨k :: ks, ?_, by simpa using hlen, ?_, hacked, ?_⟩
      · rw [hin]
        simp [push]
      · rw [hsent]
        simp [push, Nat.add_assoc]
      · rw [hcredit]
        simp [push, Nat.sub_sub]

end Window

/-- What an acknowledgement retires: batches from the front, as far as it covers them. -/
theorem retire_spec (target acked : Nat) (ks : List Nat) :
    ∃ gone, ks = gone ++ (retire target acked ks).2.2 ∧ (retire target acked ks).1 = gone.length ∧
      (retire target acked ks).2.1 = acked + gone.sum ∧
      (gone ≠ [] → acked + gone.sum ≤ target) := by
  induction ks generalizing acked with
  | nil => exact ⟨[], by simp [retire]⟩
  | cons k ks ih =>
    unfold retire
    split
    next hle =>
      obtain ⟨gone, hks, hcount, hacked, hcover⟩ := ih (acked + k)
      refine ⟨k :: gone, ?_, by simp [hcount], ?_, fun _ => ?_⟩
      · exact congrArg (k :: ·) hks
      · simp [hacked, Nat.add_assoc]
      · by_cases hgone : gone = []
        · simpa [hgone] using hle
        · simpa [Nat.add_assoc] using hcover hgone
    next => exact ⟨[], by simp⟩

/-! ## Aligned windows -/

/-- The number of items in batch `i`. -/
def batchSize (b n i : Nat) : Nat := min b (n - i * b)

/-- The number of items in the first `i` batches. -/
def itemsUpTo (b n i : Nat) : Nat := min (i * b) n

/-- The number of batches. -/
def batchCount (b n : Nat) : Nat := (n + b - 1) / b

section Aligned

variable {b n i j m s t : Nat} {v : Window}

theorem lt_batchCount (hb : 0 < b) : i < batchCount b n ↔ i * b < n := by
  rw [batchCount, Nat.lt_iff_add_one_le, Nat.le_div_iff_mul_le hb, Nat.add_mul, Nat.one_mul]
  omega

theorem itemsUpTo_batchCount (hb : 0 < b) : itemsUpTo b n (batchCount b n) = n := by
  have hnot : ¬ batchCount b n * b < n := fun h => lt_irrefl _ ((lt_batchCount hb).mpr h)
  unfold itemsUpTo
  omega

theorem itemsUpTo_succ (b n i : Nat) :
    itemsUpTo b n (i + 1) = itemsUpTo b n i + batchSize b n i := by
  unfold itemsUpTo batchSize
  rw [Nat.add_mul, Nat.one_mul]
  omega

theorem itemsUpTo_mono (b n : Nat) (h : i ≤ j) : itemsUpTo b n i ≤ itemsUpTo b n j := by
  have hmul : i * b ≤ j * b := Nat.mul_le_mul_right b h
  unfold itemsUpTo
  omega

theorem itemsUpTo_of_lt (h : i * b < n) : itemsUpTo b n i = i * b := by
  unfold itemsUpTo
  omega

theorem batchSize_pos (hb : 0 < b) (h : i * b < n) : 0 < batchSize b n i := by
  unfold batchSize
  omega

/-- As long as items remain, a batch more is an item more. -/
theorem itemsUpTo_lt (hb : 0 < b) (hi : i * b < n) (h : i < j) :
    itemsUpTo b n i < itemsUpTo b n j := by
  have hsucc := itemsUpTo_succ b n i
  have hpos := batchSize_pos hb hi
  have hmono : itemsUpTo b n (i + 1) ≤ itemsUpTo b n j := itemsUpTo_mono b n h
  omega

/-- The first `s` batches have been sent, and the first `m` of them have been retired. -/
structure Aligned (b n m s : Nat) (v : Window) : Prop where
  le : m ≤ s
  lt : ∀ i < s, i * b < n
  sent : v.sent = itemsUpTo b n s
  acked : v.acked = itemsUpTo b n m
  inflight : v.inflight = (List.range' m (s - m)).map (batchSize b n)

theorem Aligned.le_batchCount (h : Aligned b n m s v) (hb : 0 < b) : s ≤ batchCount b n := by
  by_contra hover
  exact lt_irrefl _ ((lt_batchCount hb).mpr (h.lt _ (not_le.mp hover)))

theorem Aligned.inflight_ne_nil (h : Aligned b n m s v) (hlt : m < s) : v.inflight ≠ [] := by
  rw [h.inflight]
  simp
  omega

theorem Aligned.inflight_eq_nil (h : Aligned b n s s v) : v.inflight = [] := by
  rw [h.inflight]
  simp

theorem Aligned.length_inflight (h : Aligned b n m s v) : v.inflight.length = s - m := by
  rw [h.inflight]
  simp

/-- Items remain, or batches are under way. -/
theorem Aligned.busy (h : Aligned b n m s v) (hb : 0 < b) (hmore : m < batchCount b n) :
    v.sent < n ∨ v.inflight ≠ [] := by
  rcases h.le.lt_or_eq with hlt | rfl
  · exact Or.inr (h.inflight_ne_nil hlt)
  · left
    have hitem := (lt_batchCount hb).mp hmore
    rw [h.sent, itemsUpTo_of_lt hitem]
    exact hitem

/-- Everything has been acknowledged. -/
theorem Aligned.idle (h : Aligned b n (batchCount b n) (batchCount b n) v) (hb : 0 < b) :
    ¬ (v.sent < n ∨ v.inflight ≠ []) := by
  rw [h.sent, itemsUpTo_batchCount hb, h.inflight_eq_nil]
  simp

/-- The credit may change at any time. -/
theorem Aligned.recredit (h : Aligned b n m s v) (credit : Nat) :
    Aligned b n m s { v with credit := credit } :=
  ⟨h.le, h.lt, h.sent, h.acked, h.inflight⟩

/-- The next batch of an aligned window, when the credit covers it. -/
theorem Aligned.next_eq_some (h : Aligned b n m s v) (hb : 0 < b) :
    v.next b n = some (batchSize b n s) ↔ s * b < n ∧ batchSize b n s ≤ v.credit := by
  rw [Window.next_eq_some hb, h.sent]
  unfold itemsUpTo batchSize
  omega

theorem Aligned.next_eq (h : Aligned b n m s v) (hb : 0 < b) {k : Nat} (hk : v.next b n = some k) :
    s * b < n ∧ k = batchSize b n s ∧ k ≤ v.credit := by
  rw [Window.next_eq_some hb, h.sent] at hk
  unfold itemsUpTo at hk
  unfold batchSize
  omega

theorem Aligned.push (h : Aligned b n m s v) (hlt : s * b < n) :
    Aligned b n m (s + 1) (v.push (batchSize b n s)) := by
  have hle := h.le
  refine ⟨by omega, ?_, ?_, h.acked, ?_⟩
  · intro i hi
    rcases Nat.lt_succ_iff_lt_or_eq.mp hi with hi | rfl
    · exact h.lt i hi
    · exact hlt
  · rw [itemsUpTo_succ, ← h.sent]
    rfl
  · have hrange : List.range' m (s + 1 - m) = List.range' m (s - m) ++ [s] := by
      rw [show s + 1 - m = s - m + 1 by omega, List.range'_concat]
      simp only [Nat.one_mul]
      rw [show m + (s - m) = s by omega]
    rw [hrange, List.map_append, ← h.inflight]
    rfl

/-- An acknowledgement of the first `t` batches retires exactly these. -/
theorem retire_aligned (hb : 0 < b) (hlt : ∀ i < s, i * b < n) (hmt : m ≤ t) (hts : t ≤ s) :
    retire (itemsUpTo b n t) (itemsUpTo b n m) ((List.range' m (s - m)).map (batchSize b n)) =
      (t - m, itemsUpTo b n t, (List.range' t (s - t)).map (batchSize b n)) := by
  induction hk : s - m generalizing m with
  | zero =>
    obtain rfl : m = t := by omega
    obtain rfl : m = s := by omega
    simp [retire]
  | succ k ih =>
    have hm : m * b < n := hlt m (by omega)
    rw [List.range'_succ, List.map_cons, retire, ← itemsUpTo_succ]
    by_cases hmore : m = t
    · subst hmore
      have hover : ¬ itemsUpTo b n (m + 1) ≤ itemsUpTo b n m := by
        have hless := itemsUpTo_lt hb hm (Nat.lt_add_one m)
        omega
      rw [if_neg hover, hk, List.range'_succ, Nat.sub_self, List.map_cons]
    · have hcovered : itemsUpTo b n (m + 1) ≤ itemsUpTo b n t := itemsUpTo_mono b n (by omega)
      have hrest := ih (m := m + 1) (by omega) (by omega)
      rw [if_pos hcovered, hrest]
      simp only [Prod.mk.injEq, and_true]
      omega

end Aligned

end CreditWindow
