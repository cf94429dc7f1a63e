import Mathlib.Tactic

/-!
# Storing rows while they fit

Rows are stored one after the other until one of them does not fit; this one and the rows behind
it are not stored.
-/

namespace StoreWhile

variable {α : Type}

/-- What is stored of further rows. -/
def storeWhile (fit : List α → Prop) [DecidablePred fit] (rows : List α) : List α → List α
  | [] => rows
  | t :: ts => if fit (rows ++ [t]) then storeWhile fit (rows ++ [t]) ts else rows

/-- What fits, fits without its last rows. -/
def PrefixClosed (fit : List α → Prop) : Prop := ∀ {rows rows'}, rows <+: rows' → fit rows' → fit rows

variable {fit : List α → Prop} [DecidablePred fit]

theorem length_le_storeWhile (rows ts : List α) : rows.length ≤ (storeWhile fit rows ts).length := by
  induction ts generalizing rows with
  | nil => exact le_rfl
  | cons t ts ih =>
    rw [storeWhile]
    split
    · have hle := ih (rows ++ [t])
      rw [List.length_append, List.length_singleton] at hle
      omega
    · exact le_rfl

theorem storeWhile_append (hfit : PrefixClosed fit) (rows ts us : List α) (hrows : fit rows) :
    storeWhile fit rows (ts ++ us) =
      if fit (rows ++ ts) then storeWhile fit (rows ++ ts) us else storeWhile fit rows ts := by
  induction ts generalizing rows with
  | nil => simp [hrows]
  | cons t ts ih =>
    rw [List.cons_append, storeWhile, storeWhile]
    by_cases ht : fit (rows ++ [t])
    · rw [if_pos ht, if_pos ht, ih _ ht, List.append_assoc, List.singleton_append]
    · have hall : ¬ fit (rows ++ t :: ts) := by
        intro h
        refine ht (hfit ⟨ts, ?_⟩ h)
        simp
      rw [if_neg ht, if_neg ht, if_neg hall]

theorem storeWhile_of_fit (hfit : PrefixClosed fit) {rows ts : List α} (h : fit (rows ++ ts)) :
    storeWhile fit rows ts = rows ++ ts := by
  have hrows : fit rows := hfit (List.prefix_append _ _) h
  have happ := storeWhile_append hfit rows ts [] hrows
  rw [List.append_nil, if_pos h] at happ
  exact happ

/-- The first row that does not fit. -/
theorem storeWhile_snoc_full (hfit : PrefixClosed fit) {rows ts : List α} {t : α}
    (h : fit (rows ++ ts)) (ht : ¬ fit (rows ++ ts ++ [t])) :
    storeWhile fit rows (ts ++ [t]) = rows ++ ts := by
  rw [storeWhile_append hfit _ _ _ (hfit (List.prefix_append _ _) h), if_pos h, storeWhile,
    if_neg ht]

/-- The rows behind it. -/
theorem storeWhile_snoc_stuck (hfit : PrefixClosed fit) {rows ts : List α} {t : α}
    (hrows : fit rows) (h : ¬ fit (rows ++ ts)) :
    storeWhile fit rows (ts ++ [t]) = storeWhile fit rows ts := by
  rw [storeWhile_append hfit _ _ _ hrows, if_neg h]

/-- More than `n` rows are stored exactly if there are more, and the first `n + 1` fit. -/
theorem lt_length_storeWhile_iff (hfit : PrefixClosed fit) {rows ts : List α} {n : Nat}
    (hn : rows.length ≤ n) :
    n < (storeWhile fit rows ts).length ↔
      n < rows.length + ts.length ∧ fit ((rows ++ ts).take (n + 1)) := by
  induction ts generalizing rows with
  | nil =>
    rw [storeWhile, List.length_nil, Nat.add_zero]
    constructor
    · intro h
      omega
    · intro h
      omega
  | cons t ts ih =>
    have hsplit : rows ++ t :: ts = rows ++ [t] ++ ts := by simp
    rw [storeWhile]
    by_cases ht : fit (rows ++ [t])
    · rw [if_pos ht]
      by_cases hlast : rows.length = n
      · have hle : (rows ++ [t]).length ≤ (storeWhile fit (rows ++ [t]) ts).length :=
          length_le_storeWhile _ _
        have hlen : (rows ++ [t]).length = n + 1 := by simp [hlast]
        rw [hsplit, ← hlen, List.take_left' rfl]
        constructor
        · intro _
          exact ⟨by simp [hlast], ht⟩
        · intro _
          omega
      · have hlen : (rows ++ [t]).length = rows.length + 1 := by simp
        rw [ih (by omega), hsplit, hlen, List.length_cons, Nat.add_assoc, Nat.add_comm 1]
    · rw [if_neg ht]
      constructor
      · intro h
        omega
      · rintro ⟨-, hall⟩
        refine absurd (hfit ?_ hall) ht
        rw [hsplit]
        refine List.prefix_take_iff.mpr ⟨List.prefix_append _ _, ?_⟩
        simp
        omega

omit [DecidablePred fit] in
/-- A list that fits as a whole and has no surplus that fits is not longer than `n`. -/
theorem length_le_of_not_surplus (hfit : PrefixClosed fit) {rows ts : List α} {n : Nat}
    (hall : fit (rows ++ ts))
    (h : ¬ (n < rows.length + ts.length ∧ fit ((rows ++ ts).take (n + 1)))) :
    (rows ++ ts).length ≤ n := by
  rw [List.length_append]
  by_contra hcon
  exact h ⟨by omega, hfit (List.take_prefix _ _) hall⟩

end StoreWhile
