import Mathlib.Tactic

/-!
# Collecting items into batches of a fixed size

Items are put into a buffer one by one; a full buffer is sent as a batch and emptied.
-/

namespace Batching

variable {α : Type}

/-- The batches that are sent while the items are put into the buffer, and what the buffer
holds afterwards. -/
def push (cap : Nat) : List α → List α → List (List α) × List α
  | buf, [] => ([], buf)
  | buf, x :: xs =>
    if cap ≤ buf.length + 1 then ((buf ++ [x]) :: (push cap [] xs).1, (push cap [] xs).2)
    else push cap (buf ++ [x]) xs

/-- The rest of the buffer as a last batch, if there is one. -/
def flush (buf : List α) : List (List α) := if buf = [] then [] else [buf]

/-- All batches for a list of items, starting and ending with an empty buffer. -/
def batches (cap : Nat) (xs : List α) : List (List α) :=
  (push cap [] xs).1 ++ flush (push cap [] xs).2

@[simp] theorem push_nil (cap : Nat) (buf : List α) : push cap buf [] = ([], buf) := rfl

theorem push_append (cap : Nat) (buf xs ys : List α) :
    push cap buf (xs ++ ys) =
      ((push cap buf xs).1 ++ (push cap (push cap buf xs).2 ys).1,
        (push cap (push cap buf xs).2 ys).2) := by
  induction xs generalizing buf with
  | nil => simp
  | cons x xs ih =>
    by_cases hfull : cap ≤ buf.length + 1
    · simp [push, hfull, ih]
    · simp [push, hfull, ih]

theorem push_full {cap : Nat} {buf : List α} (x : α) (h : cap ≤ buf.length + 1) :
    push cap buf [x] = ([buf ++ [x]], []) := by
  simp [push, h]

theorem push_room {cap : Nat} {buf : List α} (x : α) (h : buf.length + 1 < cap) :
    push cap buf [x] = ([], buf ++ [x]) := by
  have hroom : ¬ cap ≤ buf.length + 1 := by omega
  simp [push, hroom]

/-- No item is lost, repeated or moved. -/
theorem push_flatten (cap : Nat) (buf xs : List α) :
    (push cap buf xs).1.flatten ++ (push cap buf xs).2 = buf ++ xs := by
  induction xs generalizing buf with
  | nil => simp
  | cons x xs ih =>
    by_cases hfull : cap ≤ buf.length + 1
    · simp [push, hfull, ih]
    · simp [push, hfull, ih]

theorem push_rest_lt {cap : Nat} (buf xs : List α) (h : buf.length < cap) :
    (push cap buf xs).2.length < cap := by
  induction xs generalizing buf with
  | nil => exact h
  | cons x xs ih =>
    by_cases hfull : cap ≤ buf.length + 1
    · simpa [push, hfull] using ih [] (by simp; omega)
    · simpa [push, hfull] using ih (buf ++ [x]) (by simp; omega)

theorem push_batch_length {cap : Nat} (buf xs : List α) (h : buf.length < cap) :
    ∀ f ∈ (push cap buf xs).1, f.length = cap := by
  induction xs generalizing buf with
  | nil => simp
  | cons x xs ih =>
    by_cases hfull : cap ≤ buf.length + 1
    · have ih' := ih [] (by simp; omega)
      intro f hf
      simp only [push, if_pos hfull, List.mem_cons] at hf
      rcases hf with rfl | hf
      · rw [List.length_append, List.length_singleton]
        omega
      · exact ih' f hf
    · have ih' := ih (buf ++ [x]) (by simp; omega)
      simpa [push, hfull] using ih'

theorem flatten_flush (buf : List α) : (flush buf).flatten = buf := by
  by_cases h : buf = [] <;> simp [flush, h]

theorem batches_flatten (cap : Nat) (xs : List α) : (batches cap xs).flatten = xs := by
  rw [batches, List.flatten_append, flatten_flush, push_flatten, List.nil_append]

theorem batches_length {cap : Nat} (hcap : 0 < cap) (xs : List α) :
    ∀ f ∈ batches cap xs, 1 ≤ f.length ∧ f.length ≤ cap := by
  intro f hf
  rcases List.mem_append.mp hf with hf | hf
  · have hlen := push_batch_length [] xs (by simpa using hcap) f hf
    omega
  · have hrest := push_rest_lt [] xs (by simpa using hcap)
    by_cases hnil : (push cap [] xs).2 = []
    · simp [flush, hnil] at hf
    · rw [flush, if_neg hnil, List.mem_singleton] at hf
      subst hf
      have hpos := List.length_pos_iff.mpr hnil
      omega

theorem push_of_length_lt {cap : Nat} {buf xs : List α} (h : buf.length + xs.length < cap) :
    push cap buf xs = ([], buf ++ xs) := by
  induction xs generalizing buf with
  | nil => simp
  | cons x xs ih =>
    rw [List.length_cons] at h
    have hroom : ¬ cap ≤ buf.length + 1 := by omega
    rw [push, if_neg hroom, ih (by simp; omega)]
    simp

/-- Few items make up a single batch. -/
theorem batches_eq_singleton {cap : Nat} {xs : List α} (hne : 0 < xs.length)
    (h : xs.length < cap) : batches cap xs = [xs] := by
  have hxs : xs ≠ [] := List.ne_nil_of_length_pos hne
  rw [batches, push_of_length_lt (by simpa using h)]
  simp [flush, hxs]

/-- No batch has more items than there are. -/
theorem length_le_of_mem {cap : Nat} {xs f : List α} (h : f ∈ batches cap xs) :
    f.length ≤ xs.length := by
  rw [← batches_flatten cap xs]
  exact (List.sublist_flatten_of_mem h).length_le

/-- A list of nonempty lists is not longer than its concatenation. -/
theorem length_le_flatten (cs : List (List α)) (h : ∀ c ∈ cs, 0 < c.length) :
    cs.length ≤ cs.flatten.length := by
  induction cs with
  | nil => simp
  | cons c cs ih =>
    have hc := h c List.mem_cons_self
    have hcs := ih fun d hd => h d (List.mem_cons_of_mem _ hd)
    rw [List.length_cons, List.flatten_cons, List.length_append]
    omega

end Batching
