import Mathlib.Tactic

/-!
# Open addressing with bounded probe sequences

A table has slots of a type `σ`; every key has a finite list of slots, its probe sequence.
An insertion takes the first free slot of the sequence and fails if there is none. A lookup
walks along the sequence until it meets the key or a free slot. Nothing is ever deleted and
equal keys may be inserted several times.

The probe sequences are arbitrary; linear probing with a bounded distance is the instance
`h k, h k + 1, …, h k + d - 1` modulo the number of slots. The main results say that a table
built from a list of rows finds the first row with the key (`lookup_build`), and that a list
of rows that can be inserted keeps this property when rows are left out (`build_sublist`).
-/

namespace OpenAddressing

variable {σ κ υ : Type}

abbrev Table (σ κ υ : Type) := σ → Option (κ × υ)

def empty : Table σ κ υ := fun _ => none

section Operations

variable [DecidableEq σ] [DecidableEq κ] (path : κ → List σ)

/-- The first free slot of a probe sequence. -/
def freeSlot (T : Table σ κ υ) (slots : List σ) : Option σ :=
  slots.find? fun s => (T s).isNone

def insert (T : Table σ κ υ) (r : κ × υ) : Option (Table σ κ υ) :=
  (freeSlot T (path r.1)).map fun s => Function.update T s (some r)

/-- Walk along the slots to the key or to a free slot. -/
def search (T : Table σ κ υ) (k : κ) : List σ → Option υ
  | [] => none
  | s :: slots =>
    match T s with
    | none => none
    | some r => if r.1 = k then some r.2 else search T k slots

def lookup (T : Table σ κ υ) (k : κ) : Option υ := search T k (path k)

/-- Insert the rows one after the other. -/
def insertAll (T : Table σ κ υ) (rows : List (κ × υ)) : Option (Table σ κ υ) :=
  rows.foldlM (insert path) T

def build (rows : List (κ × υ)) : Option (Table σ κ υ) := insertAll path empty rows

end Operations

/-! ## One insertion -/

section Insert

variable [DecidableEq σ] {path : κ → List σ} {T U : Table σ κ υ} {r : κ × υ}

omit [DecidableEq σ] in
theorem freeSlot_eq_some {slots : List σ} {s : σ} (h : freeSlot T slots = some s) :
    ∃ before after, slots = before ++ s :: after ∧ T s = none ∧ ∀ x ∈ before, T x ≠ none := by
  obtain ⟨hs, before, after, hslots, hbefore⟩ := List.find?_eq_some_iff_append.mp h
  refine ⟨before, after, hslots, by simpa using hs, fun x hx => ?_⟩
  have hsome : (T x).isSome := by simpa using hbefore x hx
  exact Option.isSome_iff_ne_none.mp hsome

theorem insert_eq_some (h : insert path T r = some U) :
    ∃ before s after, path r.1 = before ++ s :: after ∧ T s = none ∧ (∀ x ∈ before, T x ≠ none) ∧
      U = Function.update T s (some r) := by
  obtain ⟨s, hs, rfl⟩ := Option.map_eq_some_iff.mp h
  obtain ⟨before, after, hpath, hfree, hbefore⟩ := freeSlot_eq_some hs
  exact ⟨before, s, after, hpath, hfree, hbefore, rfl⟩

/-- A row stands in its probe sequence, with no free slot before it. -/
def Chained (path : κ → List σ) (T : Table σ κ υ) : Prop :=
  ∀ s r, T s = some r → ∃ before after, path r.1 = before ++ s :: after ∧ ∀ x ∈ before, T x ≠ none

omit [DecidableEq σ] in
theorem chained_empty : Chained path (empty : Table σ κ υ) := by
  intro s r h
  cases h

theorem Chained.insert (hT : Chained path T) (h : insert path T r = some U) : Chained path U := by
  obtain ⟨before, s, after, hpath, hfree, hbefore, rfl⟩ := insert_eq_some h
  have hkeep : ∀ x, T x ≠ none → Function.update T s (some r) x ≠ none := by
    intro x hx
    by_cases hxs : x = s
    · simp [hxs]
    · simpa [hxs] using hx
  intro x r' hx
  by_cases hxs : x = s
  · subst hxs
    obtain rfl : r = r' := by simpa using hx
    exact ⟨before, after, hpath, fun y hy => hkeep y (hbefore y hy)⟩
  · obtain ⟨before', after', hpath', hbefore'⟩ := hT x r' (by simpa [hxs] using hx)
    exact ⟨before', after', hpath', fun y hy => hkeep y (hbefore' y hy)⟩

end Insert

/-! ## What a lookup finds -/

section Lookup

variable [DecidableEq κ] {path : κ → List σ} {T : Table σ κ υ} {k : κ} {r : κ × υ} {s : σ}

theorem search_append {before after : List σ} (hbefore : ∀ x ∈ before, T x ≠ none) :
    search T k (before ++ after) = (search T k before).or (search T k after) := by
  induction before with
  | nil => rfl
  | cons x before ih =>
    obtain ⟨r', hr'⟩ := Option.ne_none_iff_exists'.mp (hbefore x List.mem_cons_self)
    have ih' := ih fun y hy => hbefore y (List.mem_cons_of_mem x hy)
    by_cases hk : r'.1 = k
    · simp [search, hr', hk]
    · simp [search, hr', hk, ih']

theorem search_congr {U : Table σ κ υ} {slots : List σ} (h : ∀ x ∈ slots, T x = U x) :
    search T k slots = search U k slots := by
  induction slots with
  | nil => rfl
  | cons x slots ih =>
    have ih' := ih fun y hy => h y (List.mem_cons_of_mem x hy)
    simp only [search, h x List.mem_cons_self, ih']

variable [DecidableEq σ]

/-- A walk past a newly filled slot finds nothing that was not there. -/
theorem search_update_eq_none {slots : List σ} (hr : r.1 ≠ k)
    (hkey : ∀ x ∈ slots, ∀ r', T x = some r' → r'.1 ≠ k) :
    search (Function.update T s (some r)) k slots = none := by
  induction slots with
  | nil => rfl
  | cons x slots ih =>
    have ih' := ih fun y hy => hkey y (List.mem_cons_of_mem x hy)
    by_cases hxs : x = s
    · subst hxs
      simp [search, hr, ih']
    · cases hx : T x with
      | none => simp [search, hxs, hx]
      | some r' => simp [search, hxs, hx, hkey x List.mem_cons_self r' hx, ih']

/-- Filling a free slot does not change what another key finds. The walk is followed from a
point that it reaches: all slots before are taken by other keys. -/
theorem search_update_of_ne (hT : Chained path T) (hfree : T s = none) (hr : r.1 ≠ k)
    {before slots : List σ} (hpath : path k = before ++ slots)
    (hbefore : ∀ x ∈ before, ∃ r', T x = some r' ∧ r'.1 ≠ k) :
    search (Function.update T s (some r)) k slots = search T k slots := by
  induction slots generalizing before with
  | nil => rfl
  | cons x slots ih =>
    by_cases hxs : x = s
    · -- the old walk ends here, so by the chain property the key stands nowhere behind
      subst hxs
      have hbehind : ∀ y ∈ slots, ∀ r', T y = some r' → r'.1 ≠ k := by
        rintro y hy r' hyr rfl
        obtain ⟨before', after', hpath', hocc⟩ := hT y r' hyr
        have hx : x ∉ before' := fun hmem => hocc x hmem hfree
        have hyb : y ∉ before := by
          intro hmem
          obtain ⟨r'', hr'', hne⟩ := hbefore y hmem
          rw [hyr] at hr''
          cases hr''
          exact hne rfl
        rw [hpath'] at hpath
        rcases List.append_eq_append_iff.mp hpath with ⟨m, rfl, hm⟩ | ⟨m, rfl, hm⟩
        · cases m with
          | nil =>
            obtain rfl : y = x := (List.cons.inj (by simpa using hm)).1
            simp [hyr] at hfree
          | cons z m =>
            obtain rfl : y = z := (List.cons.inj (by simpa using hm)).1
            exact hyb (by simp)
        · cases m with
          | nil =>
            obtain rfl : x = y := (List.cons.inj (by simpa using hm)).1
            simp [hyr] at hfree
          | cons z m =>
            obtain rfl : x = z := (List.cons.inj (by simpa using hm)).1
            exact hx (by simp)
      simp [search, hfree, hr, search_update_eq_none hr hbehind]
    · cases hx : T x with
      | none => simp [search, hxs, hx]
      | some r' =>
        by_cases hk : r'.1 = k
        · simp [search, hxs, hx, hk]
        · have hpath' : path k = (before ++ [x]) ++ slots := by simpa using hpath
          have ih' := ih hpath' (by
            intro y hy
            rcases List.mem_append.mp hy with hy | hy
            · exact hbefore y hy
            · obtain rfl := List.mem_singleton.mp hy
              exact ⟨r', hx, hk⟩)
          simp [search, hxs, hx, hk, ih']

theorem lookup_insert {U : Table σ κ υ} (hT : Chained path T) (h : insert path T r = some U)
    (k : κ) :
    lookup path U k = if r.1 = k then (lookup path T k).or (some r.2) else lookup path T k := by
  obtain ⟨before, s, after, hpath, hfree, hbefore, rfl⟩ := insert_eq_some h
  by_cases hk : r.1 = k
  · subst hk
    have hs : s ∉ before := fun hmem => hbefore s hmem hfree
    have hsame : ∀ x ∈ before, Function.update T s (some r) x = T x := by
      intro x hx
      have hxs : x ≠ s := fun hxs => hs (hxs ▸ hx)
      exact Function.update_of_ne hxs _ _
    have hocc : ∀ x ∈ before, Function.update T s (some r) x ≠ none := by
      intro x hx
      rw [hsame x hx]
      exact hbefore x hx
    rw [if_pos rfl, lookup, lookup, hpath, search_append hocc, search_append hbefore,
      search_congr hsame]
    simp [search, hfree]
  · rw [if_neg hk]
    exact search_update_of_ne hT hfree hk (List.nil_append _).symm (by simp)

end Lookup

/-! ## Tables built from rows -/

section Build

variable [DecidableEq σ] {path : κ → List σ}

theorem insertAll_append (T : Table σ κ υ) (rows rows' : List (κ × υ)) :
    insertAll path T (rows ++ rows') =
      (insertAll path T rows).bind fun U => insertAll path U rows' := by
  simp [insertAll, List.foldlM_append, Option.bind_eq_bind]

theorem build_append (rows rows' : List (κ × υ)) :
    build path (rows ++ rows') = (build path rows).bind fun T => insertAll path T rows' :=
  insertAll_append _ _ _

theorem build_concat {rows : List (κ × υ)} {r : κ × υ} {U : Table σ κ υ}
    (h : build path (rows ++ [r]) = some U) :
    ∃ T, build path rows = some T ∧ insert path T r = some U := by
  rw [build_append] at h
  obtain ⟨T, hT, hU⟩ := Option.bind_eq_some_iff.mp h
  exact ⟨T, hT, by simpa [insertAll] using hU⟩

theorem chained_build {rows : List (κ × υ)} {T : Table σ κ υ} (h : build path rows = some T) :
    Chained path T := by
  induction rows using List.reverseRecOn generalizing T with
  | nil =>
    obtain rfl : empty = T := by simpa [build, insertAll] using h
    exact chained_empty
  | append_singleton rows r ih =>
    obtain ⟨U, hU, hT⟩ := build_concat h
    exact (ih hU).insert hT

/-- **A table finds the first row with the key.** -/
theorem lookup_build [DecidableEq κ] {rows : List (κ × υ)} {T : Table σ κ υ} (h : build path rows = some T)
    (k : κ) : lookup path T k = (rows.find? fun r => decide (r.1 = k)).map Prod.snd := by
  induction rows using List.reverseRecOn generalizing T with
  | nil =>
    obtain rfl : empty = T := by simpa [build, insertAll] using h
    cases hp : path k <;> simp [lookup, hp, search, empty]
  | append_singleton rows r ih =>
    obtain ⟨U, hU, hT⟩ := build_concat h
    rw [lookup_insert (chained_build hU) hT, ih hU, List.find?_append]
    by_cases hk : r.1 = k
    · cases rows.find? fun r => decide (r.1 = k) <;> simp [hk]
    · cases rows.find? fun r => decide (r.1 = k) <;> simp [hk]

/-- The slots that hold a row. -/
def occupied [Fintype σ] (T : Table σ κ υ) : Finset σ := Finset.univ.filter fun s => (T s).isSome

theorem card_occupied_insert [Fintype σ] {T U : Table σ κ υ} {r : κ × υ}
    (h : insert path T r = some U) : (occupied U).card = (occupied T).card + 1 := by
  obtain ⟨before, s, after, -, hfree, -, rfl⟩ := insert_eq_some h
  have hs : s ∉ occupied T := by simp [occupied, hfree]
  have hU : occupied (Function.update T s (some r)) = Insert.insert s (occupied T) := by
    ext x
    by_cases hx : x = s
    · simp [occupied, hx]
    · simp [occupied, hx]
  rw [hU, Finset.card_insert_of_notMem hs]

/-- **Every row takes a slot of its own.** -/
theorem card_occupied_build [Fintype σ] {rows : List (κ × υ)} {T : Table σ κ υ}
    (h : build path rows = some T) : (occupied T).card = rows.length := by
  induction rows using List.reverseRecOn generalizing T with
  | nil =>
    obtain rfl : empty = T := by simpa [build, insertAll] using h
    simp [occupied, empty]
  | append_singleton rows r ih =>
    obtain ⟨U, hU, hT⟩ := build_concat h
    rw [card_occupied_insert hT, ih hU, List.length_append, List.length_singleton]

/-- A table with fewer taken slots accepts every row that the fuller one accepts. -/
theorem insert_mono {T U U' : Table σ κ υ} {r : κ × υ} (hTU : ∀ s, T s ≠ none → U s ≠ none)
    (h : insert path U r = some U') :
    ∃ T', insert path T r = some T' ∧ ∀ s, T' s ≠ none → U' s ≠ none := by
  obtain ⟨before, s, after, hpath, hfree, hbefore, rfl⟩ := insert_eq_some h
  have hTs : T s = none := by
    by_contra hocc
    exact hTU s hocc hfree
  have hfound : (freeSlot T (path r.1)).isSome := by
    rw [freeSlot, List.find?_isSome]
    exact ⟨s, by simp [hpath], by simp [hTs]⟩
  obtain ⟨t, ht⟩ := Option.isSome_iff_exists.mp hfound
  refine ⟨Function.update T t (some r), by simp [insert, ht], fun x hx => ?_⟩
  obtain ⟨before', after', hpath', htfree, hbefore'⟩ := freeSlot_eq_some ht
  by_cases hxs : x = s
  · simp [hxs]
  · rw [Function.update_of_ne hxs]
    by_cases hxt : x = t
    · -- the slot the emptier table uses lies before `s`, where the fuller table is taken
      subst hxt
      have hs : s ∉ before' := fun hmem => hbefore' s hmem hTs
      rw [hpath'] at hpath
      rcases List.append_eq_append_iff.mp hpath with ⟨m, rfl, hm⟩ | ⟨m, rfl, hm⟩
      · cases m with
        | nil => exact absurd (List.cons.inj (by simpa using hm)).1 hxs
        | cons z m =>
          obtain rfl : x = z := (List.cons.inj (by simpa using hm)).1
          exact hbefore x (by simp)
      · cases m with
        | nil => exact absurd (List.cons.inj (by simpa using hm)).1.symm hxs
        | cons z m =>
          obtain rfl : s = z := (List.cons.inj (by simpa using hm)).1
          exact absurd (by simp) hs
    · exact hTU x (by simpa [hxt] using hx)

theorem insert_taken {T U : Table σ κ υ} {r : κ × υ} (h : insert path T r = some U) (s : σ)
    (hs : T s ≠ none) : U s ≠ none := by
  obtain ⟨before, t, after, -, -, -, rfl⟩ := insert_eq_some h
  by_cases hst : s = t
  · simp [hst]
  · simpa [hst] using hs

/-- **Leaving out rows never makes an insertion fail.** -/
theorem build_sublist {rows rows' : List (κ × υ)} (hsub : rows'.Sublist rows) {U : Table σ κ υ}
    (h : build path rows = some U) :
    ∃ T, build path rows' = some T ∧ ∀ s, T s ≠ none → U s ≠ none := by
  induction rows using List.reverseRecOn generalizing rows' U with
  | nil =>
    obtain rfl := List.sublist_nil.mp hsub
    exact ⟨U, h, fun _ hs => hs⟩
  | append_singleton rows r ih =>
    obtain ⟨V, hV, hU⟩ := build_concat h
    obtain ⟨l₁, l₂, rfl, hl₁, hl₂⟩ := List.sublist_append_iff.mp hsub
    obtain ⟨T, hT, hTV⟩ := ih hl₁ hV
    rcases List.sublist_singleton.mp hl₂ with rfl | rfl
    · exact ⟨T, by simpa using hT, fun s hs => insert_taken hU s (hTV s hs)⟩
    · obtain ⟨T', hT', hTU⟩ := insert_mono hTV hU
      refine ⟨T', ?_, hTU⟩
      simp [build_append, hT, insertAll, hT']

end Build

end OpenAddressing
