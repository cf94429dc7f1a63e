import FpgaHashJoin.EquiJoin
import FpgaHashJoin.OpenAddressing
import FpgaHashJoin.Types

/-!
# The block-RAM hash table

`hash_join_linear.hpp`: open addressing with linear probing over at most `maxProbeDist`
slots. The four arrays of the table are functions on the slot numbers. `reset` clears the
occupancy flags and the row counter only; keys and identifiers of earlier sessions stay in
the other arrays.

`build` and `probe` are the operations of `OpenAddressing` for the probe sequence `path`.
`Holds ht rows` says that the table has been filled with exactly the rows of a list;
`fits rows` says that this is possible.
-/

namespace FpgaHashJoin

open OpenAddressing (Table)

structure LinearHashTable where
  htKey : Fin htSlots → Int64
  htBlk : Fin htSlots → UInt32
  htOff : Fin htSlots → UInt16
  htValid : Fin htSlots → Bool
  rowCount : Nat
  deriving Inhabited

namespace LinearHashTable

def reset (ht : LinearHashTable) : LinearHashTable :=
  { ht with htValid := fun _ => false, rowCount := 0 }

/-- Fibonacci hashing: the top bits of the product with the golden ratio. -/
def slotOf (key : Int64) : UInt32 :=
  ((key.toUInt64 * 11400714819323198485) >>> UInt64.ofNat (64 - htLog2Slots)).toUInt32

/-- The slot that the given step of a probe looks at. -/
def slot (key : Int64) (step : Nat) : Fin htSlots :=
  ⟨((slotOf key).toNat + step) &&& (htSlots - 1), by
    have := Nat.and_le_right (n := (slotOf key).toNat + step) (m := htSlots - 1)
    simp only [htSlots_eq] at this ⊢
    omega⟩

def store (ht : LinearHashTable) (s : Fin htSlots) (key : Int64) (tid : Tid) : LinearHashTable where
  htKey := Function.update ht.htKey s key
  htBlk := Function.update ht.htBlk s tid.blkno
  htOff := Function.update ht.htOff s tid.offno
  htValid := Function.update ht.htValid s true
  rowCount := ht.rowCount + 1

/-- The loop of `build` with the given number of iterations left. The last component is
`steps_out`. -/
def buildLoop (ht : LinearHashTable) (key : Int64) (tid : Tid) :
    Nat → Nat → FpgaError × LinearHashTable × Nat
  | 0, step => (.overflow, ht, step)
  | left + 1, step =>
    let s := slot key step
    if ht.htValid s then buildLoop ht key tid left (step + 1)
    else (.none, ht.store s key tid, step + 1)

def build (ht : LinearHashTable) (key : Int64) (tid : Tid) : FpgaError × LinearHashTable × Nat :=
  if htMaxRows ≤ ht.rowCount then (.overflow, ht, 0)
  else ht.buildLoop key tid maxProbeDist 0

def probeLoop (ht : LinearHashTable) (key : Int64) : Nat → Nat → Option Tid × Nat
  | 0, step => (none, step)
  | left + 1, step =>
    let s := slot key step
    if ht.htValid s then
      if ht.htKey s = key then (some ⟨ht.htBlk s, ht.htOff s⟩, step + 1)
      else probeLoop ht key left (step + 1)
    else (none, step + 1)

/-- The identifier that is found, and `steps_out`. -/
def probe (ht : LinearHashTable) (key : Int64) : Option Tid × Nat :=
  ht.probeLoop key maxProbeDist 0

/-! ## The table as an open-addressing table -/

/-- The probe sequence of a key. -/
def path (key : Int64) : List (Fin htSlots) := (List.range' 0 maxProbeDist).map (slot key)

def toTable (ht : LinearHashTable) : Table (Fin htSlots) Int64 Tid := fun s =>
  if ht.htValid s then some (ht.htKey s, ⟨ht.htBlk s, ht.htOff s⟩) else none

theorem toTable_eq_none {ht : LinearHashTable} {s : Fin htSlots} :
    ht.toTable s = none ↔ ht.htValid s = false := by
  unfold toTable
  by_cases hv : ht.htValid s <;> simp [hv]

theorem toTable_store (ht : LinearHashTable) (s : Fin htSlots) (key : Int64) (tid : Tid) :
    (ht.store s key tid).toTable = Function.update ht.toTable s (some (key, tid)) := by
  funext x
  by_cases hx : x = s
  · subst hx
    simp [toTable, store]
  · simp [toTable, store, hx]

theorem toTable_reset (ht : LinearHashTable) : ht.reset.toTable = OpenAddressing.empty := by
  funext x
  simp [toTable, reset, OpenAddressing.empty]

theorem buildLoop_eq (ht : LinearHashTable) (key : Int64) (tid : Tid) (left step : Nat) :
    match OpenAddressing.freeSlot ht.toTable ((List.range' step left).map (slot key)) with
    | none => ∃ steps, ht.buildLoop key tid left step = (.overflow, ht, steps)
    | some s => ∃ steps, ht.buildLoop key tid left step = (.none, ht.store s key tid, steps) := by
  induction left generalizing step with
  | zero => exact ⟨step, rfl⟩
  | succ left ih =>
    by_cases hv : ht.htValid (slot key step)
    · have hsome : (ht.toTable (slot key step)).isNone = false := by simp [toTable, hv]
      have hfree : OpenAddressing.freeSlot ht.toTable
          ((List.range' step (left + 1)).map (slot key)) =
          OpenAddressing.freeSlot ht.toTable ((List.range' (step + 1) left).map (slot key)) := by
        simp [OpenAddressing.freeSlot, List.range'_succ, hsome]
      rw [hfree]
      simpa [buildLoop, hv] using ih (step + 1)
    · have hfree : OpenAddressing.freeSlot ht.toTable
          ((List.range' step (left + 1)).map (slot key)) = some (slot key step) := by
        simp [OpenAddressing.freeSlot, List.range'_succ, toTable, hv]
      rw [hfree]
      exact ⟨step + 1, by simp [buildLoop, hv]⟩

theorem probeLoop_eq (ht : LinearHashTable) (key : Int64) (left step : Nat) :
    (ht.probeLoop key left step).1 =
      OpenAddressing.search ht.toTable key ((List.range' step left).map (slot key)) := by
  induction left generalizing step with
  | zero => rfl
  | succ left ih =>
    rw [List.range'_succ, List.map_cons]
    by_cases hv : ht.htValid (slot key step)
    · by_cases hk : ht.htKey (slot key step) = key
      · simp [probeLoop, OpenAddressing.search, toTable, hv, hk]
      · simp [probeLoop, OpenAddressing.search, toTable, hv, hk, ih (step + 1)]
    · simp [probeLoop, OpenAddressing.search, toTable, hv]

theorem probe_eq (ht : LinearHashTable) (key : Int64) :
    (ht.probe key).1 = OpenAddressing.lookup path ht.toTable key :=
  probeLoop_eq ht key maxProbeDist 0

/-! ## Tables filled with given rows -/

/-- The rows can be inserted one after the other. -/
def fits (rows : List InputTuple) : Prop :=
  rows.length ≤ htMaxRows ∧ (OpenAddressing.build path rows).isSome

instance (rows : List InputTuple) : Decidable (fits rows) :=
  inferInstanceAs (Decidable (_ ∧ _))

theorem fits_nil : fits [] := ⟨Nat.zero_le _, rfl⟩

theorem fits_sublist {rows rows' : List InputTuple} (h : fits rows) (hsub : rows'.Sublist rows) :
    fits rows' := by
  obtain ⟨hlen, hbuild⟩ := h
  obtain ⟨U, hU⟩ := Option.isSome_iff_exists.mp hbuild
  obtain ⟨T, hT, -⟩ := OpenAddressing.build_sublist hsub hU
  exact ⟨hsub.length_le.trans hlen, by simp [hT]⟩

/-- The table has been filled with exactly these rows, in this order. -/
structure Holds (ht : LinearHashTable) (rows : List InputTuple) : Prop where
  table : OpenAddressing.build path rows = some ht.toTable
  count : ht.rowCount = rows.length
  bound : rows.length ≤ htMaxRows

theorem Holds.reset (ht : LinearHashTable) : Holds ht.reset [] where
  table := by rw [toTable_reset]; rfl
  count := rfl
  bound := Nat.zero_le _

theorem Holds.fits {ht : LinearHashTable} {rows : List InputTuple} (h : Holds ht rows) :
    fits rows :=
  ⟨h.bound, by simp [h.table]⟩

/-- The next row is inserted if and only if the longer list fits. -/
theorem Holds.build {ht : LinearHashTable} {rows : List InputTuple} (h : Holds ht rows)
    (r : InputTuple) :
    if LinearHashTable.fits (rows ++ [r]) then
      ∃ ht' steps, ht.build r.key r.tid = (.none, ht', steps) ∧ Holds ht' (rows ++ [r])
    else ∃ steps, ht.build r.key r.tid = (.overflow, ht, steps) := by
  have hbuild : OpenAddressing.build path (rows ++ [r]) =
      OpenAddressing.insert path ht.toTable r := by
    rw [OpenAddressing.build_append, h.table]
    simp [OpenAddressing.insertAll]
  by_cases hfull : htMaxRows ≤ ht.rowCount
  · have hnot : ¬ LinearHashTable.fits (rows ++ [r]) := by
      intro hfits
      have hlen := hfits.1
      rw [List.length_append, List.length_singleton, ← h.count] at hlen
      omega
    rw [if_neg hnot]
    exact ⟨0, by rw [LinearHashTable.build, if_pos hfull]⟩
  · have hrun : ht.build r.key r.tid = ht.buildLoop r.key r.tid maxProbeDist 0 := by
      rw [LinearHashTable.build, if_neg hfull]
    have hlen : (rows ++ [r]).length ≤ htMaxRows := by
      rw [List.length_append, List.length_singleton, ← h.count]
      omega
    have hloop := buildLoop_eq ht r.key r.tid maxProbeDist 0
    cases hslot : OpenAddressing.freeSlot ht.toTable (path r.1) with
    | none =>
      have hnot : ¬ LinearHashTable.fits (rows ++ [r]) := by
        intro hfits
        have hsome := hfits.2
        simp [hbuild, OpenAddressing.insert, hslot] at hsome
      rw [if_neg hnot, hrun]
      have hslot' : OpenAddressing.freeSlot ht.toTable
          ((List.range' 0 maxProbeDist).map (slot r.key)) = none := hslot
      simp only [hslot'] at hloop
      exact hloop
    | some s =>
      have htable : OpenAddressing.build path (rows ++ [r]) =
          some (ht.store s r.key r.tid).toTable := by
        rw [hbuild, toTable_store]
        simp [OpenAddressing.insert, hslot]
      have hfits : LinearHashTable.fits (rows ++ [r]) := ⟨hlen, by simp [htable]⟩
      have hslot' : OpenAddressing.freeSlot ht.toTable
          ((List.range' 0 maxProbeDist).map (slot r.key)) = some s := hslot
      rw [if_pos hfits, hrun]
      simp only [hslot'] at hloop
      obtain ⟨steps, hsteps⟩ := hloop
      refine ⟨ht.store s r.key r.tid, steps, hsteps, htable, ?_, hlen⟩
      simp [store, h.count]

/-- **A probe finds the first row with the key.** -/
theorem Holds.probe {ht : LinearHashTable} {rows : List InputTuple} (h : Holds ht rows)
    (key : Int64) : (ht.probe key).1 = EquiJoin.firstMatch rows key := by
  rw [probe_eq, OpenAddressing.lookup_build h.table]
  rfl

end LinearHashTable

end FpgaHashJoin
