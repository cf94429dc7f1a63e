import FpgaHashJoin.LinearHashTable

/-!
# The hash table over whole sequences of calls

What the table holds after `reset` and any sequence of `build` calls, of which some may have
failed. A failed call changes nothing, so the table holds exactly the rows whose calls have
succeeded, duplicates included, in the order of the calls.
-/

namespace FpgaHashJoin.LinearHashTable

/-- The table after a sequence of `build` calls. -/
def builds (ht : LinearHashTable) : List InputTuple → LinearHashTable
  | [] => ht
  | r :: rs => builds (ht.build r.key r.tid).2.1 rs

/-- The rows whose calls return `ERR_NONE`. -/
def built (ht : LinearHashTable) : List InputTuple → List InputTuple
  | [] => []
  | r :: rs =>
    let result := ht.build r.key r.tid
    if result.1 = .none then r :: built result.2.1 rs else built result.2.1 rs

/-- The number of slots that are marked valid. -/
def validSlots (ht : LinearHashTable) : Nat := (Finset.univ.filter fun s => ht.htValid s).card

theorem slot_val (key : Int64) (step : Nat) :
    (slot key step).val = ((slotOf key).toNat + step) % htSlots :=
  Nat.and_two_pow_sub_one_eq_mod _ htLog2Slots

/-! ## One call -/

theorem freeSlot_eq_none {ht : LinearHashTable} {key : Int64} :
    OpenAddressing.freeSlot ht.toTable (path key) = none ↔
      ∀ step < maxProbeDist, ht.htValid (slot key step) = true := by
  unfold OpenAddressing.freeSlot path
  rw [List.find?_eq_none]
  constructor
  · intro h step hstep
    have hmem : slot key step ∈ (List.range' 0 maxProbeDist).map (slot key) :=
      List.mem_map_of_mem (List.mem_range'_1.mpr ⟨Nat.zero_le _, by omega⟩)
    have hsome := h _ hmem
    rw [Option.isNone_iff_eq_none, toTable_eq_none] at hsome
    exact Bool.eq_true_of_not_eq_false hsome
  · intro h s hs
    obtain ⟨step, hstep, rfl⟩ := List.mem_map.mp hs
    rw [List.mem_range'_1] at hstep
    rw [Option.isNone_iff_eq_none, toTable_eq_none, h step (by omega)]
    exact Bool.noConfusion

/-- A call fails without a change, or it stores the row. -/
theorem build_cases (ht : LinearHashTable) (key : Int64) (tid : Tid) :
    (htMaxRows ≤ ht.rowCount ∨ ∀ step < maxProbeDist, ht.htValid (slot key step) = true) ∧
        (∃ steps, ht.build key tid = (.overflow, ht, steps)) ∨
      ¬ (htMaxRows ≤ ht.rowCount ∨ ∀ step < maxProbeDist, ht.htValid (slot key step) = true) ∧
        ∃ s steps, ht.build key tid = (.none, ht.store s key tid, steps) := by
  by_cases hfull : htMaxRows ≤ ht.rowCount
  · exact Or.inl ⟨Or.inl hfull, 0, by rw [build, if_pos hfull]⟩
  · have hbuild : ht.build key tid = ht.buildLoop key tid maxProbeDist 0 := by
      rw [build, if_neg hfull]
    have hloop := buildLoop_eq ht key tid maxProbeDist 0
    rw [← path] at hloop
    rw [hbuild, ← freeSlot_eq_none]
    cases hslot : OpenAddressing.freeSlot ht.toTable (path key) with
    | none =>
      simp only [hslot] at hloop
      exact Or.inl ⟨Or.inr rfl, hloop⟩
    | some s =>
      simp only [hslot] at hloop
      refine Or.inr ⟨?_, s, hloop⟩
      rintro (hrows | hnone)
      · exact hfull hrows
      · cases hnone

/-! ## Sequences of calls -/

/-- The table keeps holding the rows that were built. -/
theorem Holds.builds {ht : LinearHashTable} {rows : List InputTuple} (h : Holds ht rows)
    (calls : List InputTuple) : Holds (ht.builds calls) (rows ++ ht.built calls) := by
  induction calls generalizing ht rows with
  | nil => simpa [LinearHashTable.builds, built] using h
  | cons r rs ih =>
    have hr := h.build r
    split at hr
    next =>
      obtain ⟨ht', steps, hbuild, hholds⟩ := hr
      have hrest := ih hholds
      simpa [LinearHashTable.builds, built, hbuild] using hrest
    next =>
      obtain ⟨steps, hbuild⟩ := hr
      have hrest := ih h
      simpa [LinearHashTable.builds, built, hbuild] using hrest

theorem Holds.validSlots {ht : LinearHashTable} {rows : List InputTuple} (h : Holds ht rows) :
    ht.validSlots = rows.length := by
  rw [← OpenAddressing.card_occupied_build h.table]
  refine congrArg Finset.card (Finset.filter_congr fun s _ => ?_)
  rw [← Option.not_isNone, Bool.not_eq_true', ← Bool.not_eq_true, Option.isNone_iff_eq_none,
    toTable_eq_none, Bool.not_eq_false]

/-- What a table must answer and report when exactly these rows have been built. -/
structure Reports (ht : LinearHashTable) (rows : List InputTuple) : Prop where
  found : ∀ key tid, (ht.probe key).1 = some tid ↔
    ∃ before after, rows = before ++ (key, tid) :: after ∧ ∀ r ∈ before, r.key ≠ key
  absent : ∀ key, (ht.probe key).1 = none ↔ ∀ r ∈ rows, r.key ≠ key
  rowCount : ht.rowCount = rows.length
  validSlots : ht.validSlots = rows.length
  bound : ht.rowCount ≤ 12288

theorem Holds.reports {ht : LinearHashTable} {rows : List InputTuple} (h : Holds ht rows) :
    Reports ht rows where
  found key tid := by
    rw [h.probe, EquiJoin.firstMatch, Option.map_eq_some_iff]
    constructor
    · rintro ⟨r, hr, rfl⟩
      obtain ⟨hkey, before, after, hrows, hbefore⟩ := List.find?_eq_some_iff_append.mp hr
      obtain rfl : r.1 = key := by simpa using hkey
      exact ⟨before, after, hrows, fun r' hr' => by simpa using hbefore r' hr'⟩
    · rintro ⟨before, after, rfl, hbefore⟩
      refine ⟨(key, tid), List.find?_eq_some_iff_append.mpr ⟨by simp, before, after, rfl, ?_⟩, rfl⟩
      intro r hr
      simpa using hbefore r hr
  absent key := by
    rw [h.probe, EquiJoin.firstMatch, Option.map_eq_none_iff, List.find?_eq_none]
    simp
  rowCount := h.count
  validSlots := h.validSlots
  bound := h.count.trans_le h.bound

/-- When and how the next call fails: the table is full, or all slots the key may take are
valid; a failed call changes nothing. -/
structure FailsOnlyWhenFull (ht : LinearHashTable) (key : Int64) (tid : Tid) : Prop where
  overflow_iff : (ht.build key tid).1 = .overflow ↔ 12288 ≤ ht.rowCount ∨
    ∀ step < 16, ∀ s : Fin htSlots, s.val = ((slotOf key).toNat + step) % 16384 →
      ht.htValid s = true
  unchanged : (ht.build key tid).1 = .overflow → (ht.build key tid).2.1 = ht
  otherwise : (ht.build key tid).1 ≠ .overflow → (ht.build key tid).1 = .none

theorem failsOnlyWhenFull (ht : LinearHashTable) (key : Int64) (tid : Tid) :
    FailsOnlyWhenFull ht key tid := by
  have hslots : (∀ step < maxProbeDist, ht.htValid (slot key step) = true) ↔
      ∀ step < 16, ∀ s : Fin htSlots, s.val = ((slotOf key).toNat + step) % 16384 →
        ht.htValid s = true := by
    constructor
    · intro h step hstep s hs
      obtain rfl : slot key step = s := Fin.ext ((slot_val key step).trans hs.symm)
      exact h step hstep
    · intro h step hstep
      exact h step hstep _ (slot_val key step)
  rcases build_cases ht key tid with ⟨hfull, steps, hbuild⟩ | ⟨hroom, s, steps, hbuild⟩
  · rw [hslots] at hfull
    refine ⟨?_, ?_, ?_⟩
    · rw [hbuild]
      exact ⟨fun _ => hfull, fun _ => rfl⟩
    · rw [hbuild]
      exact fun _ => rfl
    · rw [hbuild]
      exact fun h => absurd rfl h
  · rw [hslots] at hroom
    refine ⟨?_, ?_, ?_⟩
    · rw [hbuild]
      exact ⟨nofun, fun h => absurd h hroom⟩
    · rw [hbuild]
      exact nofun
    · rw [hbuild]
      exact fun _ => rfl

/-- **After `reset` and any sequence of `build` calls** the table answers for exactly the
calls that succeeded, the first one of a key counting; its counters agree with them; and the
next call fails exactly when the table or the window of its key is full, without a change. -/
theorem reset_builds_contract (ht : LinearHashTable) (calls : List InputTuple) :
    Reports (ht.reset.builds calls) (ht.reset.built calls) ∧
      ∀ key tid, FailsOnlyWhenFull (ht.reset.builds calls) key tid := by
  have hholds := (Holds.reset ht).builds calls
  rw [List.nil_append] at hholds
  exact ⟨hholds.reports, fun key tid => failsOnlyWhenFull _ key tid⟩

end FpgaHashJoin.LinearHashTable
