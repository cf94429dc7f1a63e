import FpgaHashJoin.Process.AllRuns

/-!
# Rules for completed runs

`Ends L O p Q` says something about every run of `p` that comes to a value: with the reads `L` and
the messages `O` behind it, the value satisfies `Q` together with all the reads and all the messages.
It says nothing about runs that are still on their way. In contrast to `Always` the postcondition
sees the messages, so that a program can be shown to keep account of what it has read and sent.
-/

namespace Process

variable {ρ ι ο α β σ : Type}

def Ends (L : List (ρ × Option ι)) (O : List ο) (p : Proc ρ ι ο α)
    (Q : List (ρ × Option ι) → List ο → α → Prop) : Prop :=
  ∀ ins outs a, Runs p ins outs (.ret a) → Q (L ++ ins) (O ++ outs) a

namespace Ends

variable {L : List (ρ × Option ι)} {O : List ο} {p : Proc ρ ι ο α}
  {Q Q' : List (ρ × Option ι) → List ο → α → Prop}
  {R : List (ρ × Option ι) → List ο → β → Prop}

theorem mono (h : Ends L O p Q) (hQ : ∀ M P a, Q M P a → Q' M P a) : Ends L O p Q' :=
  fun ins outs a hrun => hQ _ _ a (h ins outs a hrun)

theorem ret {a : α} (h : Q L O a) : Ends L O (.ret a) Q := by
  intro ins outs b hrun
  cases hrun with
  | refl => simpa using h
  | recv hv _ => cases hv
  | poll hv _ => cases hv
  | send hv _ => cases hv
  | tau hv _ => cases hv

theorem pure {a : α} (h : Q L O a) : Ends L O (Pure.pure a) Q := ret h

theorem bind {f : α → Proc ρ ι ο β} (h : Ends L O p Q)
    (hf : ∀ M P a, Q M P a → Ends M P (f a) R) : Ends L O (p >>= f) R := by
  intro ins outs b hrun
  rcases hrun.bind_cases with ⟨p', hrun', hq⟩ | ⟨a, i₁, i₂, o₁, o₂, h₁, h₂, rfl, rfl⟩
  · obtain ⟨a, rfl, hb⟩ := bind_eq_ret hq.symm
    have hrest := hf _ _ a (h _ _ a hrun') [] [] b (by rw [hb]; exact .refl _)
    simpa using hrest
  · have hrest := hf _ _ a (h _ _ a h₁) _ _ b h₂
    rwa [List.append_assoc, List.append_assoc] at hrest

/-- A judgement that starts from nothing holds behind any reads and messages. -/
theorem behind (h : Ends [] [] p Q) :
    Ends L O p fun M P a => ∃ ins outs, M = L ++ ins ∧ P = O ++ outs ∧ Q ins outs a :=
  fun ins outs a hrun => ⟨ins, outs, rfl, rfl, h ins outs a hrun⟩

theorem recv {site : ρ} {k : ι → Proc ρ ι ο α} (h : ∀ x, Ends (L ++ [(site, some x)]) O (k x) Q) :
    Ends L O (.recv site k) Q := by
  intro ins outs a hrun
  cases hrun with
  | @recv _ _ _ _ x ins _ hv run =>
    cases hv
    simpa using h x ins outs a run
  | poll hv _ => cases hv
  | send hv _ => cases hv
  | tau hv _ => cases hv

theorem poll {site : ρ} {k : Option ι → Proc ρ ι ο α} (h : ∀ x, Ends (L ++ [(site, x)]) O (k x) Q) :
    Ends L O (.poll site k) Q := by
  intro ins outs a hrun
  cases hrun with
  | recv hv _ => cases hv
  | @poll _ _ _ _ x ins _ hv run =>
    cases hv
    simpa using h x ins outs a run
  | send hv _ => cases hv
  | tau hv _ => cases hv

theorem read {site : ρ} {Q : List (ρ × Option ι) → List ο → ι → Prop}
    (h : ∀ x, Q (L ++ [(site, some x)]) O x) : Ends L O (Proc.read site) Q :=
  recv fun x => ret (h x)

theorem put {o : ο} {k : Unit → Proc ρ ι ο α} (h : Ends L (O ++ [o]) (k ()) Q) :
    Ends L O (Proc.put o >>= k) Q := by
  intro ins outs a hrun
  cases hrun with
  | recv hv _ => cases hv
  | poll hv _ => cases hv
  | send hv run =>
    cases hv
    simpa using h _ _ a run
  | tau hv _ => cases hv

theorem require {c : Prop} [Decidable c] {k : Unit → Proc ρ ι ο α} (h : c → Ends L O (k ()) Q) :
    Ends L O (Proc.require c >>= k) Q := by
  unfold Proc.require
  split
  next hc => exact h hc
  next hc =>
    intro ins outs a hrun
    cases hrun with
    | recv hv _ => cases hv
    | poll hv _ => cases hv
    | send hv _ => cases hv
    | tau hv _ => cases hv

/-- The loop over a range, with an invariant for each number of iterations. -/
theorem forRange {n : Nat} {body : σ → Nat → Proc ρ ι ο σ} {s : σ}
    (I : Nat → List (ρ × Option ι) → List ο → σ → Prop) (hinit : I 0 L O s)
    (hbody : ∀ i < n, ∀ M P t, I i M P t → Ends M P (body t i) (I (i + 1))) :
    Ends L O (Proc.forRange n body s) (I n) := by
  induction n with
  | zero => exact ret hinit
  | succ n ih =>
    rw [Proc.forRange_succ_eq]
    exact (ih fun i hi => hbody i (by omega)).bind fun M P t ht => hbody n (by omega) M P t ht

/-- The unbounded loop, with an invariant at the start of every iteration. -/
theorem iter {body : σ → Proc ρ ι ο (σ ⊕ α)} {s : σ}
    (I : List (ρ × Option ι) → List ο → σ → Prop) (hinit : I L O s)
    (hbody : ∀ M P t, I M P t →
      Ends M P (body t) fun M' P' r => Sum.elim (I M' P') (Q M' P') r) :
    Ends L O (Proc.iter body s) Q := by
  intro ins outs a hrun
  obtain ⟨n, hn⟩ := hrun.counted
  -- on the number of steps: an iteration takes at least the step that starts it
  induction n using Nat.strong_induction_on generalizing L O s ins outs with
  | _ n ih =>
    cases hn with
    | recv hv _ => cases hv
    | poll hv _ => cases hv
    | send hv _ => cases hv
    | @tau m _ _ _ _ _ hv run =>
      cases hv
      have hiter := hbody L O s hinit
      rcases run.bind_cases with
        ⟨p', hrun', hq⟩ | ⟨r, n₁, n₂, i₁, i₂, o₁, o₂, h₁, h₂, rfl, rfl, rfl⟩
      · obtain ⟨r, rfl, hr⟩ := bind_eq_ret hq.symm
        have hend := hiter _ _ r hrun'.runs
        cases r with
        | inl t => cases hr
        | inr b =>
          obtain rfl : b = a := by simpa using hr
          exact hend
      · have hmid := hiter _ _ r h₁.runs
        rw [← List.append_assoc, ← List.append_assoc]
        cases r with
        | inl t => exact ih n₂ (by omega) hmid _ _ h₂.runs h₂
        | inr b => exact ret hmid _ _ a h₂.runs

end Ends

/-- A value is the end of a run. -/
theorem Runs.of_ret {a : α} {ins : List (ρ × Option ι)} {outs : List ο} {q : Proc ρ ι ο α}
    (h : Runs (.ret a) ins outs q) : ins = [] ∧ outs = [] ∧ q = .ret a := by
  cases h with
  | refl => exact ⟨rfl, rfl, rfl⟩
  | recv hv _ => cases hv
  | poll hv _ => cases hv
  | send hv _ => cases hv
  | tau hv _ => cases hv

/-- A completed run passes through every run that is given comparable inputs. -/
theorem Runs.completed_after {p q : Proc ρ ι ο α} {ins₁ ins : List (ρ × Option ι)}
    {outs₁ outs : List ο} {a : α} (h₁ : Runs p ins₁ outs₁ q) (h : Runs p ins outs (.ret a))
    (hcmp : ins₁.map Prod.snd <+: ins.map Prod.snd ∨ ins.map Prod.snd <+: ins₁.map Prod.snd) :
    ∃ ins₂ outs₂, Runs q ins₂ outs₂ (.ret a) ∧ ins = ins₁ ++ ins₂ ∧ outs = outs₁ ++ outs₂ := by
  rcases h₁.linear h hcmp with hrest | ⟨ins₂, outs₂, hrest, rfl, rfl⟩
  · exact hrest
  · obtain ⟨rfl, rfl, rfl⟩ := hrest.of_ret
    exact ⟨[], [], .refl _, by simp, by simp⟩

/-- Completed runs that are given comparable inputs are the same. -/
theorem Runs.completed_unique {p : Proc ρ ι ο α} {ins₁ ins₂ : List (ρ × Option ι)}
    {outs₁ outs₂ : List ο} {a b : α} (h₁ : Runs p ins₁ outs₁ (.ret a))
    (h₂ : Runs p ins₂ outs₂ (.ret b))
    (hcmp : ins₁.map Prod.snd <+: ins₂.map Prod.snd ∨ ins₂.map Prod.snd <+: ins₁.map Prod.snd) :
    ins₁ = ins₂ ∧ outs₁ = outs₂ := by
  obtain ⟨ins, outs, hrest, rfl, rfl⟩ := h₁.completed_after h₂ hcmp
  obtain ⟨rfl, rfl, -⟩ := hrest.of_ret
  simp

end Process
