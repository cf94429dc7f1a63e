import Mathlib.Tactic

/-!
# Sequential processes with input, output and unbounded loops

A `Proc ρ ι ο α` is a deterministic sequential program that reads symbols of `ι`, writes
messages of `ο` and ends with a value of `α`. A read carries a label of `ρ`, which says at
which place of the program it stands. `recv` waits for a symbol; `poll` may also be
answered with `none`, which stands for a time-out. `loop body s k` runs `body` from the
state `s`: a result `inl s'` starts the next iteration from `s'`, a result `inr b` leaves
the loop with `b` and continues with `k b`. `fault` is an access that the program must not
make.

`Runs p ins outs q` says that `p` becomes `q` after reading exactly `ins` and writing
exactly `outs`. All other statements of the module are rules for this relation. Two runs of
one process that are given comparable inputs are comparable themselves (`Runs.linear`);
this is the only form of determinism the rest uses.
-/

namespace Process

/-- A sequential program. The label type `ρ` marks the places at which it reads. -/
inductive Proc (ρ ι ο : Type) : Type → Type 1 where
  | ret {α : Type} (a : α) : Proc ρ ι ο α
  | recv {α : Type} (site : ρ) (k : ι → Proc ρ ι ο α) : Proc ρ ι ο α
  | poll {α : Type} (site : ρ) (k : Option ι → Proc ρ ι ο α) : Proc ρ ι ο α
  | send {α : Type} (o : ο) (k : Proc ρ ι ο α) : Proc ρ ι ο α
  | fault {α : Type} : Proc ρ ι ο α
  | loop {σ α β : Type} (body : σ → Proc ρ ι ο (σ ⊕ β)) (s : σ)
      (k : β → Proc ρ ι ο α) : Proc ρ ι ο α

variable {ρ ι ο α β γ σ : Type}

namespace Proc

def bind : Proc ρ ι ο α → (α → Proc ρ ι ο β) → Proc ρ ι ο β
  | .ret a, f => f a
  | .recv site k, f => .recv site fun x => (k x).bind f
  | .poll site k, f => .poll site fun x => (k x).bind f
  | .send o k, f => .send o (k.bind f)
  | .fault, _ => .fault
  | .loop body s k, f => .loop body s fun b => (k b).bind f

instance : Monad (Proc ρ ι ο) where
  pure := .ret
  bind := Proc.bind

@[simp] theorem ret_bind (a : α) (f : α → Proc ρ ι ο β) :
    (Proc.ret a : Proc ρ ι ο α) >>= f = f a := rfl

@[simp] theorem send_bind (o : ο) (k : Proc ρ ι ο α) (f : α → Proc ρ ι ο β) :
    Proc.send o k >>= f = .send o (k >>= f) := rfl

@[simp] theorem recv_bind (site : ρ) (k : ι → Proc ρ ι ο α) (f : α → Proc ρ ι ο β) :
    Proc.recv site k >>= f = .recv site (fun x => k x >>= f) := rfl

@[simp] theorem poll_bind (site : ρ) (k : Option ι → Proc ρ ι ο α) (f : α → Proc ρ ι ο β) :
    Proc.poll site k >>= f = .poll site (fun x => k x >>= f) := rfl

@[simp] theorem loop_bind (body : σ → Proc ρ ι ο (σ ⊕ γ)) (s : σ) (k : γ → Proc ρ ι ο α)
    (f : α → Proc ρ ι ο β) :
    Proc.loop body s k >>= f = .loop body s (fun b => k b >>= f) := rfl

theorem bind_ret (p : Proc ρ ι ο α) : p.bind .ret = p := by
  induction p with
  | ret a => rfl
  | recv site k ih => exact congrArg _ (funext ih)
  | poll site k ih => exact congrArg _ (funext ih)
  | send o k ih => exact congrArg _ ih
  | fault => rfl
  | loop body s k _ ih => exact congrArg _ (funext ih)

theorem bind_assoc (p : Proc ρ ι ο α) (f : α → Proc ρ ι ο β) (g : β → Proc ρ ι ο γ) :
    (p.bind f).bind g = p.bind fun a => (f a).bind g := by
  induction p with
  | ret a => rfl
  | recv site k ih => exact congrArg _ (funext fun x => ih x f)
  | poll site k ih => exact congrArg _ (funext fun x => ih x f)
  | send o k ih => exact congrArg _ (ih f)
  | fault => rfl
  | loop body s k _ ih => exact congrArg _ (funext fun b => ih b f)

instance : LawfulMonad (Proc ρ ι ο) :=
  LawfulMonad.mk' _ bind_ret (fun _ _ => rfl) bind_assoc

end Proc

/-! ## What a process does next -/

/-- The next action of a process. `tau` is the start of a loop iteration. -/
inductive View (ρ ι ο α : Type) : Type 1 where
  | done (a : α)
  | recv (site : ρ) (k : ι → Proc ρ ι ο α)
  | poll (site : ρ) (k : Option ι → Proc ρ ι ο α)
  | send (o : ο) (k : Proc ρ ι ο α)
  | fault
  | tau (k : Proc ρ ι ο α)

def Proc.view : Proc ρ ι ο α → View ρ ι ο α
  | .ret a => .done a
  | .recv site k => .recv site k
  | .poll site k => .poll site k
  | .send o k => .send o k
  | .fault => .fault
  | .loop body s k => .tau (body s >>= Sum.elim (fun s' => .loop body s' k) k)

/-- `Runs p ins outs q`: the process `p` reads exactly `ins`, writes exactly `outs` and is
then `q`. -/
inductive Runs : Proc ρ ι ο α → List (ρ × Option ι) → List ο → Proc ρ ι ο α → Prop where
  | refl (p : Proc ρ ι ο α) : Runs p [] [] p
  | recv {p q : Proc ρ ι ο α} {site : ρ} {k : ι → Proc ρ ι ο α} {x : ι}
      {ins : List (ρ × Option ι)} {outs : List ο} (h : p.view = .recv site k)
      (run : Runs (k x) ins outs q) : Runs p ((site, some x) :: ins) outs q
  | poll {p q : Proc ρ ι ο α} {site : ρ} {k : Option ι → Proc ρ ι ο α} {x : Option ι}
      {ins : List (ρ × Option ι)} {outs : List ο} (h : p.view = .poll site k)
      (run : Runs (k x) ins outs q) : Runs p ((site, x) :: ins) outs q
  | send {p q k : Proc ρ ι ο α} {o : ο} {ins : List (ρ × Option ι)} {outs : List ο}
      (h : p.view = .send o k) (run : Runs k ins outs q) : Runs p ins (o :: outs) q
  | tau {p q k : Proc ρ ι ο α} {ins : List (ρ × Option ι)} {outs : List ο}
      (h : p.view = .tau k) (run : Runs k ins outs q) : Runs p ins outs q

namespace Runs

variable {p q r : Proc ρ ι ο α} {ins ins' : List (ρ × Option ι)} {outs outs' : List ο}

theorem trans (h : Runs p ins outs q) (h' : Runs q ins' outs' r) :
    Runs p (ins ++ ins') (outs ++ outs') r := by
  induction h with
  | refl p => exact h'
  | recv hv _ ih => exact .recv hv (ih h')
  | poll hv _ ih => exact .poll hv (ih h')
  | send hv _ ih => exact .send hv (ih h')
  | tau hv _ ih => exact .tau hv (ih h')

/-- A silent stretch after a run. -/
theorem trans_nil (h : Runs p ins outs q) (h' : Runs q [] outs' r) :
    Runs p ins (outs ++ outs') r := by
  simpa using h.trans h'

private theorem comparable_of_cons {τ : Type} {a b : τ} {l m : List τ}
    (h : a :: l <+: b :: m ∨ b :: m <+: a :: l) : a = b ∧ (l <+: m ∨ m <+: l) := by
  simp only [List.cons_prefix_cons] at h
  rcases h with ⟨rfl, h⟩ | ⟨rfl, h⟩
  · exact ⟨rfl, Or.inl h⟩
  · exact ⟨rfl, Or.inr h⟩

/-- Two runs of one process that are given comparable inputs are comparable: the longer one
continues the shorter one. -/
theorem linear {ins₁ ins₂ : List (ρ × Option ι)} {outs₁ outs₂ : List ο}
    (h₁ : Runs p ins₁ outs₁ q) (h₂ : Runs p ins₂ outs₂ r)
    (hcmp : ins₁.map Prod.snd <+: ins₂.map Prod.snd ∨ ins₂.map Prod.snd <+: ins₁.map Prod.snd) :
    (∃ ins outs, Runs q ins outs r ∧ ins₂ = ins₁ ++ ins ∧ outs₂ = outs₁ ++ outs) ∨
      ∃ ins outs, Runs r ins outs q ∧ ins₁ = ins₂ ++ ins ∧ outs₁ = outs₂ ++ outs := by
  induction h₁ generalizing ins₂ outs₂ with
  | refl p => exact Or.inl ⟨ins₂, outs₂, h₂, rfl, rfl⟩
  | recv hv run ih =>
    cases h₂ with
    | refl => exact Or.inr ⟨_, _, .recv hv run, rfl, rfl⟩
    | recv hv' run' =>
      rw [hv] at hv'
      cases hv'
      obtain ⟨hx, hcmp'⟩ := comparable_of_cons hcmp
      cases hx
      rcases ih run' hcmp' with ⟨i, o, h, rfl, rfl⟩ | ⟨i, o, h, rfl, rfl⟩
      · exact Or.inl ⟨i, o, h, rfl, rfl⟩
      · exact Or.inr ⟨i, o, h, rfl, rfl⟩
    | poll hv' run' => rw [hv] at hv'; cases hv'
    | send hv' run' => rw [hv] at hv'; cases hv'
    | tau hv' run' => rw [hv] at hv'; cases hv'
  | poll hv run ih =>
    cases h₂ with
    | refl => exact Or.inr ⟨_, _, .poll hv run, rfl, rfl⟩
    | recv hv' run' => rw [hv] at hv'; cases hv'
    | poll hv' run' =>
      rw [hv] at hv'
      cases hv'
      obtain ⟨hx, hcmp'⟩ := comparable_of_cons hcmp
      cases hx
      rcases ih run' hcmp' with ⟨i, o, h, rfl, rfl⟩ | ⟨i, o, h, rfl, rfl⟩
      · exact Or.inl ⟨i, o, h, rfl, rfl⟩
      · exact Or.inr ⟨i, o, h, rfl, rfl⟩
    | send hv' run' => rw [hv] at hv'; cases hv'
    | tau hv' run' => rw [hv] at hv'; cases hv'
  | send hv run ih =>
    cases h₂ with
    | refl => exact Or.inr ⟨_, _, .send hv run, rfl, rfl⟩
    | recv hv' run' => rw [hv] at hv'; cases hv'
    | poll hv' run' => rw [hv] at hv'; cases hv'
    | send hv' run' =>
      rw [hv] at hv'
      cases hv'
      rcases ih run' hcmp with ⟨i, o, h, rfl, rfl⟩ | ⟨i, o, h, rfl, rfl⟩
      · exact Or.inl ⟨i, o, h, rfl, rfl⟩
      · exact Or.inr ⟨i, o, h, rfl, rfl⟩
    | tau hv' run' => rw [hv] at hv'; cases hv'
  | tau hv run ih =>
    cases h₂ with
    | refl => exact Or.inr ⟨_, _, .tau hv run, rfl, rfl⟩
    | recv hv' run' => rw [hv] at hv'; cases hv'
    | poll hv' run' => rw [hv] at hv'; cases hv'
    | send hv' run' => rw [hv] at hv'; cases hv'
    | tau hv' run' =>
      rw [hv] at hv'
      cases hv'
      exact ih run' hcmp

/-! ## Sequencing and loops -/

theorem bind (h : Runs p ins outs q) (f : α → Proc ρ ι ο β) :
    Runs (p >>= f) ins outs (q >>= f) := by
  induction h with
  | refl p => exact .refl _
  | @recv p _ site k _ _ _ hv _ ih =>
    have hv' : (p >>= f).view = .recv site fun x => k x >>= f := by
      cases p <;> cases hv
      rfl
    exact .recv hv' ih
  | @poll p _ site k _ _ _ hv _ ih =>
    have hv' : (p >>= f).view = .poll site fun x => k x >>= f := by
      cases p <;> cases hv
      rfl
    exact .poll hv' ih
  | @send p _ k o _ _ hv _ ih =>
    have hv' : (p >>= f).view = .send o (k >>= f) := by
      cases p <;> cases hv
      rfl
    exact .send hv' ih
  | @tau p _ k _ _ hv _ ih =>
    have hv' : (p >>= f).view = .tau (k >>= f) := by
      cases p with
      | loop body s k' =>
        cases hv
        rw [bind_assoc]
        refine congrArg (fun g => View.tau (body s >>= g)) (funext fun x => ?_)
        cases x <;> rfl
      | _ => cases hv
    exact .tau hv' ih

/-- Run the first part to its value, then the rest. -/
theorem seq {a : α} {f : α → Proc ρ ι ο β} {r : Proc ρ ι ο β}
    (h : Runs p ins outs (.ret a)) (h' : Runs (f a) ins' outs' r) :
    Runs (p >>= f) (ins ++ ins') (outs ++ outs') r :=
  (h.bind f).trans h'

/-- The value is only passed on. -/
theorem seq_pure {a : α} (h : Runs p ins outs (.ret a)) (g : α → β) :
    Runs (p >>= fun a => pure (g a)) ins outs (.ret (g a)) :=
  h.bind _

/-- A first part without input. -/
theorem seq_silent {a : α} {f : α → Proc ρ ι ο β} {r : Proc ρ ι ο β}
    (h : Runs p [] outs (.ret a)) (h' : Runs (f a) ins' outs' r) :
    Runs (p >>= f) ins' (outs ++ outs') r :=
  h.seq h'

/-- A first part without output. -/
theorem seq_reads {a : α} {f : α → Proc ρ ι ο β} {r : Proc ρ ι ο β}
    (h : Runs p ins [] (.ret a)) (h' : Runs (f a) ins' outs' r) :
    Runs (p >>= f) (ins ++ ins') outs' r :=
  h.seq h'

/-- A first part that only reads, then a part that only writes. -/
theorem seq_then {a : α} {f : α → Proc ρ ι ο β} {r : Proc ρ ι ο β}
    (h : Runs p ins [] (.ret a)) (h' : Runs (f a) [] outs' r) : Runs (p >>= f) ins outs' r := by
  simpa using h.seq h'

section Loop

variable {body : σ → Proc ρ ι ο (σ ⊕ β)} {s s' : σ} {k : β → Proc ρ ι ο α}

/-- A run inside an iteration. -/
theorem loop_mid {m : Proc ρ ι ο (σ ⊕ β)} (h : Runs (body s) ins outs m) :
    Runs (.loop body s k) ins outs (m >>= Sum.elim (fun s' => .loop body s' k) k) :=
  .tau rfl (h.bind _)

/-- A whole iteration that continues the loop. -/
theorem loop_next (h : Runs (body s) ins outs (.ret (.inl s')))
    (h' : Runs (.loop body s' k) ins' outs' r) :
    Runs (.loop body s k) (ins ++ ins') (outs ++ outs') r :=
  (loop_mid h).trans h'

/-- An iteration that leaves the loop. -/
theorem loop_exit {b : β} (h : Runs (body s) ins outs (.ret (.inr b)))
    (h' : Runs (k b) ins' outs' r) :
    Runs (.loop body s k) (ins ++ ins') (outs ++ outs') r :=
  (loop_mid h).trans h'

end Loop

end Runs

/-- Run `body` until it returns `inr`. -/
def Proc.iter (body : σ → Proc ρ ι ο (σ ⊕ β)) (s : σ) : Proc ρ ι ο β := .loop body s .ret

/-- Continue only under the condition. -/
def Proc.require (c : Prop) [Decidable c] : Proc ρ ι ο Unit := if c then .ret () else .fault

/-- Run a part only under the condition. -/
def Proc.when (c : Prop) [Decidable c] (p : Proc ρ ι ο Unit) : Proc ρ ι ο Unit :=
  if c then p else .ret ()

/-- Run `body` for the numbers below `n`. -/
def Proc.forRange (n : Nat) (body : σ → Nat → Proc ρ ι ο σ) (s : σ) : Proc ρ ι ο σ :=
  (List.range n).foldlM body s

theorem Proc.forRange_succ_eq (n : Nat) (body : σ → Nat → Proc ρ ι ο σ) (s : σ) :
    Proc.forRange (n + 1) body s = Proc.forRange n body s >>= fun s => body s n := by
  simp [Proc.forRange, List.range_succ, List.foldlM_append]

/-- Read one symbol. -/
def Proc.read (site : ρ) : Proc ρ ι ο ι := .recv site .ret

/-- Write one message. -/
def Proc.put (o : ο) : Proc ρ ι ο Unit := .send o (.ret ())

/-- Symbols that are all read at one place. -/
def tagged (site : ρ) (xs : List ι) : List (ρ × Option ι) := xs.map fun x => (site, some x)

@[simp] theorem tagged_nil (site : ρ) : tagged site ([] : List ι) = [] := rfl

@[simp] theorem tagged_cons (site : ρ) (x : ι) (xs : List ι) :
    tagged site (x :: xs) = (site, some x) :: tagged site xs := rfl

@[simp] theorem tagged_append (site : ρ) (xs ys : List ι) :
    tagged site (xs ++ ys) = tagged site xs ++ tagged site ys := by
  simp [tagged]

@[simp] theorem map_snd_tagged (site : ρ) (xs : List ι) :
    (tagged site xs).map Prod.snd = xs.map some := by
  simp [tagged, Function.comp_def]

namespace Runs

theorem read (site : ρ) (x : ι) : Runs (Proc.read site : Proc ρ ι ο ι) [(site, some x)] [] (.ret x) :=
  .recv rfl (.refl _)

theorem put (o : ο) : Runs (Proc.put o : Proc ρ ι ο Unit) [] [o] (.ret ()) :=
  .send rfl (.refl _)

theorem require {c : Prop} [Decidable c] (h : c) :
    Runs (Proc.require c : Proc ρ ι ο Unit) [] [] (.ret ()) := by
  rw [Proc.require, if_pos h]
  exact .refl _

theorem forRange_succ {n : Nat} {body : σ → Nat → Proc ρ ι ο σ} {s s' s'' : σ}
    {ins ins' : List (ρ × Option ι)} {outs outs' : List ο}
    (h : Runs (Proc.forRange n body s) ins outs (.ret s'))
    (h' : Runs (body s' n) ins' outs' (.ret s'')) :
    Runs (Proc.forRange (n + 1) body s) (ins ++ ins') (outs ++ outs') (.ret s'') := by
  rw [Proc.forRange_succ_eq]
  exact h.seq h'

end Runs

/-! ## Programs that throw

Exceptions are the monad transformer `ExceptT` over `Proc`. `iterE` is the loop whose body
may also leave by an exception. -/

section Throwing

variable {ε : Type}

/-- The result of one iteration of a throwing loop, as a result of the plain loop. -/
def iterResult : Except ε (σ ⊕ β) → σ ⊕ Except ε β
  | .ok (.inl s) => .inl s
  | .ok (.inr b) => .inr (.ok b)
  | .error e => .inr (.error e)

def iterE (body : σ → ExceptT ε (Proc ρ ι ο) (σ ⊕ β)) (s : σ) : ExceptT ε (Proc ρ ι ο) β :=
  Proc.iter (fun s => (body s).run >>= fun r => .ret (iterResult r)) s

variable {x : ExceptT ε (Proc ρ ι ο) α} {f : α → ExceptT ε (Proc ρ ι ο) β}
  {ins ins' : List (ρ × Option ι)} {outs outs' : List ο} {a : α} {e : ε}
  {q : Proc ρ ι ο (Except ε α)} {r : Proc ρ ι ο (Except ε β)}

theorem Runs.bindE (h : Runs x.run ins outs q) (f : α → ExceptT ε (Proc ρ ι ο) β) :
    Runs (x >>= f).run ins outs (q >>= ExceptT.bindCont f) :=
  h.bind _

theorem Runs.seqOk (h : Runs x.run ins outs (.ret (.ok a)))
    (h' : Runs (f a).run ins' outs' r) :
    Runs (x >>= f).run (ins ++ ins') (outs ++ outs') r :=
  (h.bindE f).trans h'

/-- A first part without output. -/
theorem Runs.seqOkReads (h : Runs x.run ins [] (.ret (.ok a)))
    (h' : Runs (f a).run ins' outs' r) : Runs (x >>= f).run (ins ++ ins') outs' r :=
  h.seqOk h'

/-- The value is only passed on. -/
theorem Runs.mapOk (h : Runs x.run ins outs (.ret (.ok a))) (g : α → β) :
    Runs (x >>= fun a => pure (g a)).run ins outs (.ret (.ok (g a))) :=
  h.bindE _

theorem Runs.seqError (h : Runs x.run ins outs (.ret (.error e))) :
    Runs (x >>= f).run ins outs (.ret (.error e)) :=
  h.bindE f

end Throwing

end Process
