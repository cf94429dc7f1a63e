import FpgaHashJoin.Process.Basic

/-!
# Rules for all runs of a process

The rules of `Process.Basic` construct runs. Here are rules that say something about every
run of a process, whatever it reads.

`Always bad ok L p Q` is a judgement of partial correctness for a process that has the reads
`L` behind it: every message that `p` sends satisfies `ok`, a run is at a fault exactly when its
reads satisfy `bad`, and a value `p` returns satisfies `Q` together with the reads. The
judgement is about reads `L` that are not bad, so only the rules for reading have to look at
`bad`.
`Mirrors R p q` compares two processes: `q` can follow every run of `p` with the same reads
and the same messages, and values they return are related by `R`.

Loops need an induction on the number of steps of a run, so runs are first counted.
-/

namespace Process

variable {ρ ι ο α β γ δ σ τ : Type}

/-! ## Counted runs -/

/-- A run of exactly `n` steps. -/
inductive RunsIn : Nat → Proc ρ ι ο α → List (ρ × Option ι) → List ο → Proc ρ ι ο α → Prop where
  | refl (p : Proc ρ ι ο α) : RunsIn 0 p [] [] p
  | recv {n : Nat} {p q : Proc ρ ι ο α} {site : ρ} {k : ι → Proc ρ ι ο α} {x : ι}
      {ins : List (ρ × Option ι)} {outs : List ο} (h : p.view = .recv site k)
      (run : RunsIn n (k x) ins outs q) : RunsIn (n + 1) p ((site, some x) :: ins) outs q
  | poll {n : Nat} {p q : Proc ρ ι ο α} {site : ρ} {k : Option ι → Proc ρ ι ο α} {x : Option ι}
      {ins : List (ρ × Option ι)} {outs : List ο} (h : p.view = .poll site k)
      (run : RunsIn n (k x) ins outs q) : RunsIn (n + 1) p ((site, x) :: ins) outs q
  | send {n : Nat} {p q k : Proc ρ ι ο α} {o : ο} {ins : List (ρ × Option ι)} {outs : List ο}
      (h : p.view = .send o k) (run : RunsIn n k ins outs q) : RunsIn (n + 1) p ins (o :: outs) q
  | tau {n : Nat} {p q k : Proc ρ ι ο α} {ins : List (ρ × Option ι)} {outs : List ο}
      (h : p.view = .tau k) (run : RunsIn n k ins outs q) : RunsIn (n + 1) p ins outs q

theorem Runs.counted {p q : Proc ρ ι ο α} {ins : List (ρ × Option ι)} {outs : List ο}
    (h : Runs p ins outs q) : ∃ n, RunsIn n p ins outs q := by
  induction h with
  | refl p => exact ⟨0, .refl p⟩
  | recv hv _ ih => exact ⟨_, .recv hv ih.choose_spec⟩
  | poll hv _ ih => exact ⟨_, .poll hv ih.choose_spec⟩
  | send hv _ ih => exact ⟨_, .send hv ih.choose_spec⟩
  | tau hv _ ih => exact ⟨_, .tau hv ih.choose_spec⟩

theorem RunsIn.runs {n : Nat} {p q : Proc ρ ι ο α} {ins : List (ρ × Option ι)} {outs : List ο}
    (h : RunsIn n p ins outs q) : Runs p ins outs q := by
  induction h with
  | refl p => exact .refl p
  | recv hv _ ih => exact .recv hv ih
  | poll hv _ ih => exact .poll hv ih
  | send hv _ ih => exact .send hv ih
  | tau hv _ ih => exact .tau hv ih

/-- A run of a sequence is a run inside the first part, or a complete run of the first part
followed by a run of the second. -/
def SplitsAt (n : Nat) (p : Proc ρ ι ο α) (f : α → Proc ρ ι ο β) (ins : List (ρ × Option ι))
    (outs : List ο) (q : Proc ρ ι ο β) : Prop :=
  (∃ p', RunsIn n p ins outs p' ∧ q = p' >>= f) ∨
    ∃ a n₁ n₂ i₁ i₂ o₁ o₂, RunsIn n₁ p i₁ o₁ (.ret a) ∧ RunsIn n₂ (f a) i₂ o₂ q ∧
      n = n₁ + n₂ ∧ ins = i₁ ++ i₂ ∧ outs = o₁ ++ o₂

/-- Put a step in front of both forms of a split run. -/
theorem SplitsAt.step {n : Nat} {p k : Proc ρ ι ο α} {f : α → Proc ρ ι ο β}
    {ins : List (ρ × Option ι)} {outs : List ο} {q : Proc ρ ι ο β} (i : List (ρ × Option ι))
    (o : List ο)
    (hstep : ∀ {m ins outs r}, RunsIn m k ins outs r → RunsIn (m + 1) p (i ++ ins) (o ++ outs) r)
    (h : SplitsAt n k f ins outs q) : SplitsAt (n + 1) p f (i ++ ins) (o ++ outs) q := by
  rcases h with ⟨p', hrun, rfl⟩ | ⟨a, n₁, n₂, i₁, i₂, o₁, o₂, h₁, h₂, rfl, rfl, rfl⟩
  · exact Or.inl ⟨p', hstep hrun, rfl⟩
  · exact Or.inr ⟨a, n₁ + 1, n₂, i ++ i₁, i₂, o ++ o₁, o₂, hstep h₁, h₂, by omega,
      by rw [List.append_assoc], by rw [List.append_assoc]⟩

theorem RunsIn.bind_cases {n : Nat} {p : Proc ρ ι ο α} {f : α → Proc ρ ι ο β}
    {ins : List (ρ × Option ι)} {outs : List ο} {q : Proc ρ ι ο β}
    (h : RunsIn n (p >>= f) ins outs q) : SplitsAt n p f ins outs q := by
  induction n generalizing p ins outs with
  | zero =>
    cases h
    exact Or.inl ⟨p, .refl p, rfl⟩
  | succ n ih =>
    cases p with
    | ret a =>
      exact Or.inr ⟨a, 0, n + 1, [], ins, [], outs, .refl _, h, by omega, rfl, rfl⟩
    | recv site k =>
      cases h with
      | recv hv run =>
        cases hv
        exact (ih run).step [_] [] fun hr => .recv rfl hr
      | poll hv _ => cases hv
      | send hv _ => cases hv
      | tau hv _ => cases hv
    | poll site k =>
      cases h with
      | recv hv _ => cases hv
      | poll hv run =>
        cases hv
        exact (ih run).step [_] [] fun hr => .poll rfl hr
      | send hv _ => cases hv
      | tau hv _ => cases hv
    | send o k =>
      cases h with
      | recv hv _ => cases hv
      | poll hv _ => cases hv
      | send hv run =>
        cases hv
        exact (ih run).step [] [_] fun hr => .send rfl hr
      | tau hv _ => cases hv
    | fault =>
      cases h with
      | recv hv _ => cases hv
      | poll hv _ => cases hv
      | send hv _ => cases hv
      | tau hv _ => cases hv
    | loop body s k =>
      cases h with
      | recv hv _ => cases hv
      | poll hv _ => cases hv
      | send hv _ => cases hv
      | tau hv run =>
        cases hv
        have hassoc : (body s >>= Sum.elim (fun s' => .loop body s' fun b => k b >>= f)
            fun b => k b >>= f) =
            (body s >>= Sum.elim (fun s' => .loop body s' k) k) >>= f := by
          rw [bind_assoc]
          refine congrArg (body s >>= ·) (funext fun x => ?_)
          cases x <;> rfl
        have run' : RunsIn n ((body s >>= Sum.elim (fun s' => .loop body s' k) k) >>= f)
            ins outs q := by
          rw [← hassoc]
          exact run
        exact (ih run').step [] [] fun hr => .tau rfl hr

theorem Runs.bind_cases {p : Proc ρ ι ο α} {f : α → Proc ρ ι ο β} {ins : List (ρ × Option ι)}
    {outs : List ο} {q : Proc ρ ι ο β} (h : Runs (p >>= f) ins outs q) :
    (∃ p', Runs p ins outs p' ∧ q = p' >>= f) ∨
      ∃ a i₁ i₂ o₁ o₂, Runs p i₁ o₁ (.ret a) ∧ Runs (f a) i₂ o₂ q ∧
        ins = i₁ ++ i₂ ∧ outs = o₁ ++ o₂ := by
  obtain ⟨n, hn⟩ := h.counted
  rcases hn.bind_cases with
    ⟨p', hrun, hq⟩ | ⟨a, n₁, n₂, i₁, i₂, o₁, o₂, h₁, h₂, -, hi, ho⟩
  · exact Or.inl ⟨p', hrun.runs, hq⟩
  · exact Or.inr ⟨a, i₁, i₂, o₁, o₂, h₁.runs, h₂.runs, hi, ho⟩

/-- Only a value gives a value. -/
theorem bind_eq_ret {p : Proc ρ ι ο α} {f : α → Proc ρ ι ο β} {b : β} (h : p >>= f = .ret b) :
    ∃ a, p = .ret a ∧ f a = .ret b := by
  cases p with
  | ret a => exact ⟨a, rfl, h⟩
  | _ => cases h

theorem view_eq_fault {p : Proc ρ ι ο α} : p.view = .fault ↔ p = .fault := by
  constructor
  · intro h
    cases p with
    | fault => rfl
    | _ => cases h
  · rintro rfl
    rfl

/-- A sequence is at a fault together with its first part, as long as this has not ended. -/
theorem view_bind_eq_fault {p : Proc ρ ι ο α} {f : α → Proc ρ ι ο β} (hp : ∀ a, p ≠ .ret a) :
    (p >>= f).view = .fault ↔ p.view = .fault := by
  cases p with
  | ret a => exact absurd rfl (hp a)
  | fault => exact ⟨fun _ => rfl, fun _ => rfl⟩
  | _ => exact ⟨nofun, nofun⟩

/-- Nothing follows a fault. -/
theorem runs_fault {ins : List (ρ × Option ι)} {outs : List ο} {q : Proc ρ ι ο α}
    (h : Runs .fault ins outs q) : ins = [] ∧ outs = [] ∧ q = .fault := by
  cases h with
  | refl => exact ⟨rfl, rfl, rfl⟩
  | recv hv _ => cases hv
  | poll hv _ => cases hv
  | send hv _ => cases hv
  | tau hv _ => cases hv

/-! ## Partial correctness -/

section Always

variable {bad : List (ρ × Option ι) → Prop} {ok : List (ρ × Option ι) → ο → Prop}

/-- What holds in every run of a process that has read `L` before: every output is in order
after the reads that precede it, bad reads and nothing else lead to a fault, and a value is
returned with the postcondition. -/
structure Holds (bad : List (ρ × Option ι) → Prop) (ok : List (ρ × Option ι) → ο → Prop)
    (L : List (ρ × Option ι)) (Q : List (ρ × Option ι) → α → Prop) (ins : List (ρ × Option ι))
    (outs : List ο) (q : Proc ρ ι ο α) : Prop where
  outputs : ∀ o ∈ outs, ∃ i, i <+: ins ∧ ok (L ++ i) o
  fault : q.view = .fault ↔ bad (L ++ ins)
  value : ∀ a, q = .ret a → Q (L ++ ins) a

def Always (bad : List (ρ × Option ι) → Prop) (ok : List (ρ × Option ι) → ο → Prop)
    (L : List (ρ × Option ι)) (p : Proc ρ ι ο α) (Q : List (ρ × Option ι) → α → Prop) : Prop :=
  ¬ bad L → ∀ ins outs q, Runs p ins outs q → Holds bad ok L Q ins outs q

namespace Holds

variable {L M ins : List (ρ × Option ι)} {outs : List ο} {q : Proc ρ ι ο α}
  {Q Q' : List (ρ × Option ι) → α → Prop}

/-- Nothing has happened yet, and the process is neither at a fault nor at its end. -/
theorem start (hL : ¬ bad L) (hfault : q.view ≠ .fault) (hret : ∀ a, q ≠ .ret a) :
    Holds bad ok L Q [] [] q where
  outputs := by simp
  fault := by simpa [hfault] using hL
  value a h := absurd h (hret a)

/-- Reads that did not lead to a fault are not bad. -/
theorem not_bad (h : Holds bad ok L Q ins outs q) (hq : q.view ≠ .fault) : ¬ bad (L ++ ins) :=
  mt h.fault.mpr hq

theorem mono (h : Holds bad ok L Q ins outs q) (hQ : ∀ M a, Q M a → Q' M a) :
    Holds bad ok L Q' ins outs q where
  outputs := h.outputs
  fault := h.fault
  value a ha := hQ _ a (h.value a ha)

/-- Outputs and reads that come first. -/
theorem prepend {i₁ : List (ρ × Option ι)} {o₁ : List ο}
    (h₁ : ∀ o ∈ o₁, ∃ i, i <+: i₁ ∧ ok (L ++ i) o) (h : Holds bad ok (L ++ i₁) Q ins outs q) :
    Holds bad ok L Q (i₁ ++ ins) (o₁ ++ outs) q where
  outputs o ho := by
    rcases List.mem_append.mp ho with ho | ho
    · obtain ⟨i, hi, hok⟩ := h₁ o ho
      exact ⟨i, hi.trans (List.prefix_append _ _), hok⟩
    · obtain ⟨i, hi, hok⟩ := h.outputs o ho
      refine ⟨i₁ ++ i, (List.prefix_append_right_inj _).mpr hi, ?_⟩
      rwa [← List.append_assoc]
  fault := by
    rw [← List.append_assoc]
    exact h.fault
  value a ha := by
    rw [← List.append_assoc]
    exact h.value a ha

theorem read {x : ρ × Option ι} (h : Holds bad ok (L ++ [x]) Q ins outs q) :
    Holds bad ok L Q (x :: ins) outs q := by
  have hnone : ∀ o ∈ ([] : List ο), ∃ i, i <+: [x] ∧ ok (L ++ i) o := by simp
  exact prepend hnone h

theorem write {o : ο} (ho : ok L o) (h : Holds bad ok L Q ins outs q) :
    Holds bad ok L Q ins (o :: outs) q := by
  have hone : ∀ o' ∈ [o], ∃ i, i <+: [] ∧ ok (L ++ i) o' := by
    intro o' ho'
    refine ⟨[], List.nil_prefix, ?_⟩
    rw [List.mem_singleton.mp ho', List.append_nil]
    exact ho
  exact prepend hone (by rwa [List.append_nil])

end Holds

namespace Always

variable {L : List (ρ × Option ι)} {p : Proc ρ ι ο α} {Q Q' : List (ρ × Option ι) → α → Prop}
  {R : List (ρ × Option ι) → β → Prop}

theorem ret {a : α} (h : Q L a) : Always bad ok L (.ret a) Q := by
  intro hL ins outs q hrun
  cases hrun with
  | refl =>
    refine ⟨by simp, ⟨nofun, fun hb => absurd (by simpa using hb) hL⟩, fun b hb => ?_⟩
    cases hb
    rwa [List.append_nil]
  | recv hv _ => cases hv
  | poll hv _ => cases hv
  | send hv _ => cases hv
  | tau hv _ => cases hv

theorem pure {a : α} (h : Q L a) : Always bad ok L (Pure.pure a) Q := ret h

theorem mono (h : Always bad ok L p Q) (hQ : ∀ M a, Q M a → Q' M a) : Always bad ok L p Q' :=
  fun hL ins outs q hrun => (h hL ins outs q hrun).mono hQ

theorem bind {f : α → Proc ρ ι ο β} (h : Always bad ok L p Q)
    (hf : ∀ M a, Q M a → Always bad ok M (f a) R) : Always bad ok L (p >>= f) R := by
  intro hL ins outs q hrun
  rcases hrun.bind_cases with ⟨p', hrun', rfl⟩ | ⟨a, i₁, i₂, o₁, o₂, h₁, h₂, rfl, rfl⟩
  · have hp := h hL ins outs p' hrun'
    by_cases hret : ∃ a, p' = .ret a
    · obtain ⟨a, rfl⟩ := hret
      have hrest := hf _ a (hp.value a rfl) (hp.not_bad nofun) [] [] _ (.refl _)
      simpa using hrest.prepend hp.outputs
    · refine ⟨hp.outputs, ?_, fun b hb => ?_⟩
      · exact (view_bind_eq_fault fun a ha => hret ⟨a, ha⟩).trans hp.fault
      · obtain ⟨a, ha, -⟩ := bind_eq_ret hb
        exact absurd ⟨a, ha⟩ hret
  · have hp := h hL i₁ o₁ _ h₁
    exact (hf _ a (hp.value a rfl) (hp.not_bad nofun) i₂ o₂ q h₂).prepend hp.outputs

/-- At a fault after bad reads. -/
theorem holds_of_bad {k : Proc ρ ι ο α} (hL : bad L) (hk : k = .fault)
    {ins : List (ρ × Option ι)} {outs : List ο} {q : Proc ρ ι ο α} (hrun : Runs k ins outs q) :
    Holds bad ok L Q ins outs q := by
  subst hk
  obtain ⟨rfl, rfl, rfl⟩ := runs_fault hrun
  exact ⟨by simp, ⟨fun _ => by simpa using hL, fun _ => rfl⟩, nofun⟩

/-- A read. Where it makes the reads bad, a fault follows. -/
theorem recv {site : ρ} {k : ι → Proc ρ ι ο α}
    (hbad : ∀ x, bad (L ++ [(site, some x)]) → k x = .fault)
    (h : ∀ x, Always bad ok (L ++ [(site, some x)]) (k x) Q) :
    Always bad ok L (.recv site k) Q := by
  intro hL ins outs q hrun
  cases hrun with
  | refl => exact .start hL nofun nofun
  | @recv _ _ _ _ x ins _ hv run =>
    cases hv
    by_cases hx : bad (L ++ [(site, some x)])
    · exact (holds_of_bad hx (hbad x hx) run).read
    · exact (h x hx ins outs q run).read
  | poll hv _ => cases hv
  | send hv _ => cases hv
  | tau hv _ => cases hv

theorem poll {site : ρ} {k : Option ι → Proc ρ ι ο α}
    (hbad : ∀ x, bad (L ++ [(site, x)]) → k x = .fault)
    (h : ∀ x, Always bad ok (L ++ [(site, x)]) (k x) Q) : Always bad ok L (.poll site k) Q := by
  intro hL ins outs q hrun
  cases hrun with
  | refl => exact .start hL nofun nofun
  | recv hv _ => cases hv
  | @poll _ _ _ _ x ins _ hv run =>
    cases hv
    by_cases hx : bad (L ++ [(site, x)])
    · exact (holds_of_bad hx (hbad x hx) run).read
    · exact (h x hx ins outs q run).read
  | send hv _ => cases hv
  | tau hv _ => cases hv

theorem put {o : ο} {Q : List (ρ × Option ι) → Unit → Prop} (ho : ok L o) (h : Q L ()) :
    Always bad ok L (Proc.put o) Q := by
  intro hL ins outs q hrun
  cases hrun with
  | refl => exact .start hL nofun nofun
  | recv hv _ => cases hv
  | poll hv _ => cases hv
  | send hv run =>
    cases hv
    exact (ret h hL _ _ _ run).write ho
  | tau hv _ => cases hv

theorem require {c : Prop} [Decidable c] {Q : List (ρ × Option ι) → Unit → Prop}
    (hbad : ¬ c → bad L) (h : c → Q L ()) : Always bad ok L (Proc.require c) Q := by
  unfold Proc.require
  split
  next hc => exact ret (h hc)
  next hc => exact fun hL => absurd (hbad hc) hL

/-- A process that reads nothing and ends has a single run. -/
theorem of_runs {outs : List ο} {a : α} (hrun : Runs p [] outs (.ret a))
    (hok : ∀ o ∈ outs, ok L o) (h : Q L a) : Always bad ok L p Q := by
  intro hL ins outs' q hq
  have hok' : ∀ o ∈ outs, ∃ i, i <+: [] ∧ ok (L ++ i) o := fun o ho =>
    ⟨[], List.nil_prefix, by rw [List.append_nil]; exact hok o ho⟩
  rcases hrun.linear hq (Or.inl List.nil_prefix) with
    ⟨i, o, hrest, rfl, rfl⟩ | ⟨i, o, hrest, hi, rfl⟩
  · exact Holds.prepend hok'
      (ret (by rwa [List.append_nil]) (by rwa [List.append_nil]) _ _ _ hrest)
  · obtain ⟨rfl, rfl⟩ := List.append_eq_nil_iff.mp hi.symm
    have hlive : q.view ≠ .fault := by
      -- a fault does not go on to a value
      intro hv
      obtain rfl := view_eq_fault.mp hv
      obtain ⟨-, -, heq⟩ := runs_fault hrest
      cases heq
    refine ⟨fun o' ho' => hok' o' (List.mem_append_left _ ho'), ?_, fun b hb => ?_⟩
    · simpa [hlive] using hL
    · subst hb
      cases hrest with
      | refl => rwa [List.append_nil]
      | send hv' _ => cases hv'
      | tau hv' _ => cases hv'

/-- The loop over a range, with an invariant for each number of iterations. -/
theorem forRange {n : Nat} {body : σ → Nat → Proc ρ ι ο σ} {s : σ}
    (I : Nat → List (ρ × Option ι) → σ → Prop) (hinit : I 0 L s)
    (hbody : ∀ i < n, ∀ M t, I i M t → Always bad ok M (body t i) (I (i + 1))) :
    Always bad ok L (Proc.forRange n body s) (I n) := by
  induction n with
  | zero => exact ret hinit
  | succ n ih =>
    rw [Proc.forRange_succ_eq]
    exact (ih fun i hi => hbody i (by omega)).bind fun M t ht => hbody n (by omega) M t ht

/-- The unbounded loop, with an invariant at the start of every iteration. -/
theorem loop {body : σ → Proc ρ ι ο (σ ⊕ γ)} {k : γ → Proc ρ ι ο α} {s : σ}
    (I : List (ρ × Option ι) → σ → Prop) {P : List (ρ × Option ι) → γ → Prop} (hinit : I L s)
    (hbody : ∀ M t, I M t → Always bad ok M (body t) fun M' r => Sum.elim (I M') (P M') r)
    (hk : ∀ M c, P M c → Always bad ok M (k c) Q) : Always bad ok L (.loop body s k) Q := by
  intro hL ins outs q hrun
  obtain ⟨n, hn⟩ := hrun.counted
  -- on the number of steps: an iteration takes at least the step that starts it
  induction n using Nat.strong_induction_on generalizing L s ins outs with
  | _ n ih =>
    cases hn with
    | refl => exact .start hL nofun nofun
    | recv hv _ => cases hv
    | poll hv _ => cases hv
    | send hv _ => cases hv
    | @tau m _ _ _ _ _ hv run =>
      cases hv
      have hiter := hbody L s hinit
      rcases run.bind_cases with
        ⟨p', hrun', rfl⟩ | ⟨r, n₁, n₂, i₁, i₂, o₁, o₂, h₁, h₂, rfl, rfl, rfl⟩
      · have hp := hiter hL _ _ _ hrun'.runs
        by_cases hret : ∃ r, p' = .ret r
        · obtain ⟨r, rfl⟩ := hret
          have hlive := hp.not_bad nofun
          cases r with
          | inl t =>
            have hstart : Holds bad ok (L ++ ins) Q [] [] (Proc.loop body t k) :=
              .start hlive nofun nofun
            simpa using hstart.prepend hp.outputs
          | inr c =>
            have hrest := hk _ c (hp.value _ rfl) hlive [] [] _ (.refl _)
            simpa using hrest.prepend hp.outputs
        · refine ⟨hp.outputs, ?_, fun b hb => ?_⟩
          · exact (view_bind_eq_fault fun r hr => hret ⟨r, hr⟩).trans hp.fault
          · obtain ⟨r, hr, -⟩ := bind_eq_ret hb
            exact absurd ⟨r, hr⟩ hret
      · have hp := hiter hL _ _ _ h₁.runs
        refine Holds.prepend hp.outputs ?_
        have hlive := hp.not_bad nofun
        cases r with
        | inl t => exact ih n₂ (by omega) (hp.value _ rfl) hlive _ _ h₂.runs h₂
        | inr c => exact hk _ c (hp.value _ rfl) hlive _ _ _ h₂.runs

theorem iter {body : σ → Proc ρ ι ο (σ ⊕ α)} {s : σ} (I : List (ρ × Option ι) → σ → Prop)
    (hinit : I L s)
    (hbody : ∀ M t, I M t → Always bad ok M (body t) fun M' r => Sum.elim (I M') (Q M') r) :
    Always bad ok L (Proc.iter body s) Q :=
  loop I hinit hbody fun _ _ hc => ret hc

end Always

end Always

/-! ## Comparing two processes -/

/-- The second process follows every run of the first. -/
def Mirrors (R : α → β → Prop) (p : Proc ρ ι ο α) (q : Proc ρ ι ο β) : Prop :=
  ∀ ins outs p', Runs p ins outs p' →
    ∃ q', Runs q ins outs q' ∧ ∀ a, p' = .ret a → ∃ b, q' = .ret b ∧ R a b

namespace Mirrors

variable {R R' : α → β → Prop} {p : Proc ρ ι ο α} {q : Proc ρ ι ο β}

theorem ret {a : α} {b : β} (h : R a b) :
    Mirrors R (.ret a : Proc ρ ι ο α) (.ret b : Proc ρ ι ο β) := by
  intro ins outs p' hrun
  cases hrun with
  | refl =>
    refine ⟨_, .refl _, fun a' ha => ?_⟩
    cases ha
    exact ⟨b, rfl, h⟩
  | recv hv _ => cases hv
  | poll hv _ => cases hv
  | send hv _ => cases hv
  | tau hv _ => cases hv

theorem pure {a : α} {b : β} (h : R a b) :
    Mirrors R (Pure.pure a : Proc ρ ι ο α) (Pure.pure b : Proc ρ ι ο β) :=
  ret h

theorem refl (p : Proc ρ ι ο α) : Mirrors Eq p p := by
  intro ins outs p' hrun
  exact ⟨p', hrun, fun a ha => ⟨a, ha, rfl⟩⟩

theorem mono (h : Mirrors R p q) (hR : ∀ a b, R a b → R' a b) : Mirrors R' p q := by
  intro ins outs p' hrun
  obtain ⟨q', hq, hret⟩ := h ins outs p' hrun
  refine ⟨q', hq, fun a ha => ?_⟩
  obtain ⟨b, hb, hab⟩ := hret a ha
  exact ⟨b, hb, hR a b hab⟩

theorem bind {S : γ → δ → Prop} {f : α → Proc ρ ι ο γ} {g : β → Proc ρ ι ο δ}
    (h : Mirrors R p q) (hf : ∀ a b, R a b → Mirrors S (f a) (g b)) :
    Mirrors S (p >>= f) (q >>= g) := by
  intro ins outs r hrun
  rcases hrun.bind_cases with ⟨p', hrun', rfl⟩ | ⟨a, i₁, i₂, o₁, o₂, h₁, h₂, rfl, rfl⟩
  · obtain ⟨q', hq, hret⟩ := h ins outs p' hrun'
    by_cases hp' : ∃ a, p' = .ret a
    · obtain ⟨a, rfl⟩ := hp'
      obtain ⟨b, rfl, hab⟩ := hret a rfl
      obtain ⟨r', hr', hret'⟩ := hf a b hab [] [] _ (.refl _)
      exact ⟨r', by simpa using hq.seq hr', hret'⟩
    · refine ⟨q' >>= g, hq.bind g, fun c hc => ?_⟩
      obtain ⟨a, ha, -⟩ := bind_eq_ret hc
      exact absurd ⟨a, ha⟩ hp'
  · obtain ⟨q', hq, hret⟩ := h i₁ o₁ _ h₁
    obtain ⟨b, rfl, hab⟩ := hret a rfl
    obtain ⟨r', hr', hret'⟩ := hf a b hab i₂ o₂ r h₂
    exact ⟨r', hq.seq hr', hret'⟩

/-- The same part first on both sides. -/
theorem bind_refl {S : γ → δ → Prop} {p : Proc ρ ι ο α} {f : α → Proc ρ ι ο γ}
    {g : α → Proc ρ ι ο δ} (hf : ∀ a, Mirrors S (f a) (g a)) : Mirrors S (p >>= f) (p >>= g) :=
  (refl p).bind fun a _ hab => hab ▸ hf a

theorem ite {c c' : Prop} [Decidable c] [Decidable c'] {p' : Proc ρ ι ο α} {q' : Proc ρ ι ο β}
    (hc : c ↔ c') (hthen : c → Mirrors R p q) (helse : ¬ c → Mirrors R p' q') :
    Mirrors R (if c then p else p') (if c' then q else q') := by
  by_cases h : c
  · rw [if_pos h, if_pos (hc.mp h)]
    exact hthen h
  · rw [if_neg h, if_neg (mt hc.mpr h)]
    exact helse h

theorem forRange {n : Nat} {body : σ → Nat → Proc ρ ι ο σ} {body' : τ → Nat → Proc ρ ι ο τ}
    {s : σ} {t : τ} (I : Nat → σ → τ → Prop) (hinit : I 0 s t)
    (hbody : ∀ i < n, ∀ s t, I i s t → Mirrors (I (i + 1)) (body s i) (body' t i)) :
    Mirrors (I n) (Proc.forRange n body s) (Proc.forRange n body' t) := by
  induction n with
  | zero => exact ret hinit
  | succ n ih =>
    rw [Proc.forRange_succ_eq, Proc.forRange_succ_eq]
    exact (ih fun i hi => hbody i (by omega)).bind fun s t hst => hbody n (by omega) s t hst

/-- Two loops whose iterations mirror each other. -/
theorem iter {body : σ → Proc ρ ι ο (σ ⊕ α)} {body' : τ → Proc ρ ι ο (τ ⊕ β)} {s : σ} {t : τ}
    (I : σ → τ → Prop) (hinit : I s t)
    (hbody : ∀ s t, I s t → Mirrors (Sum.LiftRel I R) (body s) (body' t)) :
    Mirrors R (Proc.iter body s) (Proc.iter body' t) := by
  intro ins outs r hrun
  obtain ⟨n, hn⟩ := hrun.counted
  induction n using Nat.strong_induction_on generalizing s t ins outs with
  | _ n ih =>
    cases hn with
    | refl => exact ⟨_, .refl _, fun a ha => by cases ha⟩
    | recv hv _ => cases hv
    | poll hv _ => cases hv
    | send hv _ => cases hv
    | @tau m _ _ _ _ _ hv run =>
      cases hv
      have hiter := hbody s t hinit
      rcases run.bind_cases with
        ⟨p', hrun', rfl⟩ | ⟨x, n₁, n₂, i₁, i₂, o₁, o₂, h₁, h₂, rfl, rfl, rfl⟩
      · obtain ⟨q', hq, hret⟩ := hiter _ _ _ hrun'.runs
        have hloop := Runs.loop_mid (k := Proc.ret) hq
        by_cases hp' : ∃ a, p' = .ret (.inr a)
        · obtain ⟨a, rfl⟩ := hp'
          obtain ⟨y, rfl, hy⟩ := hret _ rfl
          cases hy with
          | inr hab => exact ⟨_, hloop, fun a' ha' => ⟨_, rfl, by cases ha'; exact hab⟩⟩
        · refine ⟨_, hloop, fun a ha => ?_⟩
          obtain ⟨x, rfl, hx⟩ := bind_eq_ret ha
          cases x with
          | inl s' => cases hx
          | inr a' => exact absurd ⟨a', rfl⟩ hp'
      · obtain ⟨q', hq, hret⟩ := hiter _ _ _ h₁.runs
        obtain ⟨y, rfl, hy⟩ := hret _ rfl
        cases hy with
        | inl hst =>
          obtain ⟨r', hr', hret'⟩ := ih n₂ (by omega) hst _ _ h₂.runs h₂
          exact ⟨r', hq.loop_next hr', hret'⟩
        | inr hab =>
          have hreturn : Mirrors R (.ret _ : Proc ρ ι ο α) (.ret _ : Proc ρ ι ο β) := ret hab
          obtain ⟨r', hr', hret'⟩ := hreturn _ _ _ h₂.runs
          exact ⟨r', hq.loop_exit hr', hret'⟩

end Mirrors

end Process
