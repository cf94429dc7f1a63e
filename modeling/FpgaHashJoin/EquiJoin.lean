import Mathlib.Tactic

/-!
# The reference join

Rows are pairs of a key and a payload. Every row of the outer list is paired with the first
row of the inner list that has its key; outer rows without such a row are dropped. The order
is that of the outer list.

The join may be computed partition by partition for any assignment of keys to partitions
(`partition_perm`): the pairs are the same, up to order.
-/

namespace EquiJoin

variable {κ υ τ : Type} [DecidableEq κ]

/-- The payload of the first row with the key. -/
def firstMatch (inner : List (κ × υ)) (k : κ) : Option υ :=
  (inner.find? fun r => decide (r.1 = k)).map Prod.snd

def join (inner : List (κ × υ)) (outer : List (κ × τ)) : List (υ × τ) :=
  outer.filterMap fun r => (firstMatch inner r.1).map fun v => (v, r.2)

@[simp] theorem join_nil (inner : List (κ × υ)) : join inner ([] : List (κ × τ)) = [] := rfl

theorem join_append (inner : List (κ × υ)) (outer outer' : List (κ × τ)) :
    join inner (outer ++ outer') = join inner outer ++ join inner outer' :=
  List.filterMap_append

theorem join_singleton_some {inner : List (κ × υ)} {r : κ × τ} {v : υ}
    (h : firstMatch inner r.1 = some v) : join inner [r] = [(v, r.2)] := by
  simp [join, h]

theorem join_singleton_none {inner : List (κ × υ)} {r : κ × τ}
    (h : firstMatch inner r.1 = none) : join inner [r] = [] := by
  simp [join, h]

theorem join_empty_inner (outer : List (κ × τ)) : join ([] : List (κ × υ)) outer = [] := by
  simp [join, firstMatch]

theorem length_join_le (inner : List (κ × υ)) (outer : List (κ × τ)) :
    (join inner outer).length ≤ outer.length :=
  List.length_filterMap_le _ _

/-- A pair comes from two rows with one key. -/
theorem exists_key_of_mem_join {inner : List (κ × υ)} {outer : List (κ × τ)} {x : υ × τ}
    (h : x ∈ join inner outer) : ∃ k, (k, x.1) ∈ inner ∧ (k, x.2) ∈ outer := by
  obtain ⟨r, hr, hx⟩ := List.mem_filterMap.mp h
  obtain ⟨v, hv, rfl⟩ := Option.map_eq_some_iff.mp hx
  obtain ⟨r', hr', rfl⟩ := Option.map_eq_some_iff.mp hv
  have hkey : r'.1 = r.1 := by simpa using List.find?_some hr'
  refine ⟨r.1, ?_, hr⟩
  rw [← hkey]
  exact List.mem_of_find?_eq_some hr'

/-! ## Partitions -/

section Partition

variable (part : κ → ℕ)

/-- The rows whose key belongs to the partition `p`. -/
def rowsOf {υ : Type} (p : ℕ) (rows : List (κ × υ)) : List (κ × υ) :=
  rows.filter fun r => part r.1 = p

omit [DecidableEq κ] in
@[simp] theorem rowsOf_append {υ : Type} (p : ℕ) (rows rows' : List (κ × υ)) :
    rowsOf part p (rows ++ rows') = rowsOf part p rows ++ rowsOf part p rows' :=
  List.filter_append ..

theorem firstMatch_rowsOf (inner : List (κ × υ)) (k : κ) :
    firstMatch (rowsOf part (part k) inner) k = firstMatch inner k := by
  have hfind : (rowsOf part (part k) inner).find? (fun r => decide (r.1 = k)) =
      inner.find? fun r => decide (r.1 = k) := by
    rw [rowsOf, List.find?_filter]
    refine congrArg (fun f => inner.find? f) (funext fun r => ?_)
    by_cases hr : r.1 = k <;> simp [hr]
  rw [firstMatch, hfind, firstMatch]

theorem join_rowsOf (p : ℕ) (inner : List (κ × υ)) (outer : List (κ × τ)) :
    join (rowsOf part p inner) (rowsOf part p outer) = join inner (rowsOf part p outer) := by
  refine List.filterMap_congr fun r hr => ?_
  have hp : part r.1 = p := by simpa using (List.mem_filter.mp hr).2
  rw [← hp, firstMatch_rowsOf]

omit [DecidableEq κ] in
/-- Distributing rows over partitions loses none and repeats none. -/
theorem flatMap_rowsOf_perm {υ : Type} {K : ℕ} (rows : List (κ × υ))
    (hpart : ∀ r ∈ rows, part r.1 < K) :
    ((List.range K).flatMap fun p => rowsOf part p rows).Perm rows := by
  classical
  rw [List.perm_iff_count]
  intro r
  by_cases hr : r ∈ rows
  · have hK := hpart r hr
    have hcount : ∀ p, (rowsOf part p rows).count r = if part r.1 = p then rows.count r else 0 := by
      intro p
      by_cases hp : part r.1 = p
      · rw [if_pos hp, rowsOf, List.count_filter (by simpa using hp)]
      · rw [if_neg hp, List.count_eq_zero]
        intro hmem
        exact hp (by simpa using (List.mem_filter.mp hmem).2)
    rw [List.count_flatMap]
    have hsum : (List.map (List.count r ∘ fun p => rowsOf part p rows) (List.range K)).sum =
        ∑ p ∈ Finset.range K, if part r.1 = p then rows.count r else 0 := by
      simp only [Function.comp_def, hcount]
      rfl
    rw [hsum, Finset.sum_ite_eq, if_pos (Finset.mem_range.mpr hK)]
  · rw [List.count_eq_zero.mpr hr, List.count_eq_zero]
    intro hmem
    obtain ⟨p, -, hp⟩ := List.mem_flatMap.mp hmem
    exact hr (List.mem_filter.mp hp).1

/-- **The join computed partition by partition is the join.** -/
theorem partition_perm {K : ℕ} (inner : List (κ × υ)) (outer : List (κ × τ))
    (hpart : ∀ r ∈ outer, part r.1 < K) :
    ((List.range K).flatMap fun p => join (rowsOf part p inner) (rowsOf part p outer)).Perm
      (join inner outer) := by
  have hperm := (flatMap_rowsOf_perm part outer hpart).filterMap
    fun r => (firstMatch inner r.1).map fun v => (v, r.2)
  rw [List.filterMap_flatMap] at hperm
  simp only [join_rowsOf]
  exact hperm

end Partition

end EquiJoin
