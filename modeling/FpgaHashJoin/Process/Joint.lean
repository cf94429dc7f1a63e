import FpgaHashJoin.Process.Machine

/-!
# Two machines joined by a reliable medium

When both processes of a network follow event machines, a network at rest is described by the
states of the two machines and by what is under way between them. From such a state each side
can take the events that have arrived; the network then reaches the state in which the
reaction is under way to the other side. Together with the confluence of `Process.Network` one
such schedule says how every interleaving ends.
-/

namespace Process

variable {ρ₁ ρ₂ ι₁ ι₂ ο₁ ο₂ α β S₁ S₂ E₁ E₂ O₁ O₂ : Type}

/-- The two processes wait in the states `s` and `t`, and these symbols have not been read. -/
structure Net.Rests (M₁ : Machine ρ₁ ι₁ ο₁ α S₁ E₁ O₁) (M₂ : Machine ρ₂ ι₂ ο₂ β S₂ E₂ O₂) (s : S₁)
    (toLeft : List ι₁) (t : S₂) (toRight : List ι₂) (n : Net ρ₁ ρ₂ ι₁ ι₂ ο₁ ο₂ α β) : Prop where
  left : M₁.Rep s n.left.proc
  right : M₂.Rep t n.right.proc
  toLeft : n.left.inbox = toLeft
  toRight : n.right.inbox = toRight

namespace Net.Rests

variable {M₁ : Machine ρ₁ ι₁ ο₁ α S₁ E₁ O₁} {M₂ : Machine ρ₂ ι₂ ο₂ β S₂ E₂ O₂}
  {f : ο₁ → List ι₂} {g : ο₂ → List ι₁} {s s' : S₁} {t t' : S₂}
  {n : Net ρ₁ ρ₂ ι₁ ι₂ ο₁ ο₂ α β} {xs box : List ι₁} {ys cox : List ι₂}

/-- The left side takes events that have arrived. -/
theorem left_takes {es : List E₁} {l : List (ρ₁ × Option ι₁)} {os : List O₁}
    (h : Rests M₁ M₂ s (xs ++ box) t cox n) (hpath : M₁.Path s es l os s')
    (hvals : es.flatMap M₁.vals = xs.map some) :
    ∃ (outs : List ο₁) (m : Net ρ₁ ρ₂ ι₁ ι₂ ο₁ ο₂ α β),
      Reach (Medium.reliable f g) n m ∧ outs.flatMap M₁.obs = os ∧
      Rests M₁ M₂ s' box t (cox ++ outs.flatMap f) m := by
  obtain ⟨hs, ht, hbox, hcox⟩ := h
  obtain ⟨outs, q, hrun, hobs, hq⟩ := hpath.runs hs
  obtain ⟨hreads, hsome⟩ := Side.reads_of_vals (hpath.vals.trans hvals)
  rcases n with ⟨⟨p, inbox, log, sent⟩, right⟩
  obtain rfl : inbox = Side.reads l ++ box := by rw [hreads]; exact hbox
  refine ⟨outs, _, reach_left hrun hsome box log sent right, hobs, hq, ht, rfl, ?_⟩
  rw [← hcox]
  rfl

/-- The right side takes events that have arrived. -/
theorem right_takes {es : List E₂} {l : List (ρ₂ × Option ι₂)} {os : List O₂}
    (h : Rests M₁ M₂ s box t (ys ++ cox) n) (hpath : M₂.Path t es l os t')
    (hvals : es.flatMap M₂.vals = ys.map some) :
    ∃ (outs : List ο₂) (m : Net ρ₁ ρ₂ ι₁ ι₂ ο₁ ο₂ α β),
      Reach (Medium.reliable f g) n m ∧ outs.flatMap M₂.obs = os ∧
      Rests M₁ M₂ s (box ++ outs.flatMap g) t' cox m := by
  obtain ⟨hs, ht, hbox, hcox⟩ := h
  obtain ⟨outs, q, hrun, hobs, hq⟩ := hpath.runs ht
  obtain ⟨hreads, hsome⟩ := Side.reads_of_vals (hpath.vals.trans hvals)
  rcases n with ⟨left, ⟨p, inbox, log, sent⟩⟩
  obtain rfl : inbox = Side.reads l ++ cox := by rw [hreads]; exact hcox
  refine ⟨outs, _, reach_right hrun hsome cox log sent left, hobs, hs, hq, ?_, rfl⟩
  rw [← hbox]
  rfl

end Net.Rests

/-! ## Waiting for each other -/

/-- The next action is a read. -/
def Proc.Reads {ρ ι ο α : Type} (p : Proc ρ ι ο α) : Prop :=
  (∃ site k, p.view = .recv site k) ∨ ∃ site k, p.view = .poll site k

/-- A process that has ended does not read. -/
theorem Proc.Reads.ne_ret {ρ ι ο α : Type} {p : Proc ρ ι ο α} (h : p.Reads) (a : α) :
    p ≠ .ret a := by
  rintro rfl
  rcases h with ⟨site, k, hview⟩ | ⟨site, k, hview⟩ <;> cases hview

/-- Both processes wait for input, and none is under way. -/
structure Net.Blocked (n : Net ρ₁ ρ₂ ι₁ ι₂ ο₁ ο₂ α β) : Prop where
  left : n.left.proc.Reads
  right : n.right.proc.Reads
  toLeft : n.left.inbox = []
  toRight : n.right.inbox = []

theorem Side.not_step_of_reads {ρ ι ο κ α : Type} {wire : ο → List κ → Prop} {s s' : Side ρ ι ο κ α}
    {l : List κ} (h : s.proc.Reads) (hbox : s.inbox = []) : ¬ Side.Step False wire s l s' := by
  intro hstep
  rcases h with ⟨site, k, hv⟩ | ⟨site, k, hv⟩ <;> cases hstep <;> simp_all

/-- Without time-outs a blocked network does not move. -/
theorem Net.Blocked.stuck {f : ο₁ → List ι₂} {g : ο₂ → List ι₁}
    {n : Net ρ₁ ρ₂ ι₁ ι₂ ο₁ ο₂ α β} (h : n.Blocked) : Stuck (Medium.reliable f g) n := by
  intro m hstep
  cases hstep with
  | left hstep => exact Side.not_step_of_reads h.left h.toLeft hstep
  | right hstep => exact Side.not_step_of_reads h.right h.toRight hstep

/-- A network whose processes have both ended does not move. -/
theorem Net.stuck_of_done {M : Medium ι₁ ι₂ ο₁ ο₂} {n : Net ρ₁ ρ₂ ι₁ ι₂ ο₁ ο₂ α β} {x : α} {y : β}
    (hleft : n.left.proc = .ret x) (hright : n.right.proc = .ret y) : Stuck M n := by
  intro m hstep
  cases hstep with
  | left hstep => cases hstep <;> simp_all [Proc.view]
  | right hstep => cases hstep <;> simp_all [Proc.view]

/-- A machine that accepts an event reads in order to take it. -/
theorem Machine.reads {ρ ι ο α S E O : Type} {M : Machine ρ ι ο α S E O} {s : S}
    {p : Proc ρ ι ο α} {e : E} {r : List O × S} (hp : M.Rep s p) (hstep : M.step s e = some r)
    (hne : M.vals e ≠ []) : p.Reads := by
  obtain ⟨mid, outs, p', hread, -⟩ := M.sim hp (show M.step s e = some (r.1, r.2) from hstep)
  have hwait := M.waiting hp
  have hlabel : M.label s e ≠ [] := by
    intro hnil
    rw [← M.label_vals hstep, hnil] at hne
    exact hne rfl
  generalize M.label s e = ins at hread hlabel
  cases hread with
  | refl => exact absurd rfl hlabel
  | recv hv _ => exact Or.inl ⟨_, _, hv⟩
  | poll hv _ => exact Or.inr ⟨_, _, hv⟩
  | tau hv _ => simp [Proc.Waiting, hv] at hwait

/-- A network whose processes send something before they wait for the first time. -/
theorem Net.rests_start {M₁ : Machine ρ₁ ι₁ ο₁ α S₁ E₁ O₁} {M₂ : Machine ρ₂ ι₂ ο₂ β S₂ E₂ O₂}
    {f : ο₁ → List ι₂} {g : ο₂ → List ι₁} {p p' : Proc ρ₁ ι₁ ο₁ α} {q q' : Proc ρ₂ ι₂ ο₂ β}
    {s : S₁} {t : S₂} {outs : List ο₁} {outs' : List ο₂} (hp : Runs p [] outs p')
    (hs : M₁.Rep s p') (hq : Runs q [] outs' q') (ht : M₂.Rep t q') :
    ∃ m, Reach (Medium.reliable f g) (Net.start p q) m ∧
      Rests M₁ M₂ s (outs'.flatMap g) t (outs.flatMap f) m := by
  have hleft := reach_left (f := f) (g := g) hp (by simp) [] [] []
    (⟨q, [], [], []⟩ : Side ρ₂ ι₂ ο₂ ι₁ β)
  have hright := reach_right (f := f) (g := g) hq (by simp) (outs.flatMap f) [] []
    (⟨p', [], [], outs.map fun o => (o, f o)⟩ : Side ρ₁ ι₁ ο₁ ι₂ α)
  simp only [Side.reads_nil, Side.receive, List.nil_append] at hleft hright
  exact ⟨_, hleft.trans hright, hs, ht, rfl, rfl⟩

end Process
