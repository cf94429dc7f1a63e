import FpgaHashJoin.Process.Basic

/-!
# Two processes joined by first-in first-out channels

A network consists of a left and a right process. Each has an inbox of symbols; a message
that one side writes is appended, as a list of symbols, to the inbox of the other. What
list that is is decided by the medium, which also says which side may see time-outs. Every
side keeps the log of what it has read and sent.

Over a reliable medium without time-outs two steps of one state always commute
(`step_diamond`). If one interleaving lets a process end, no interleaving gets stuck before
(`Stuck.left_done`), and a single complete run fixes the length and the end of all runs
(`Steps.complete`).
-/

namespace Process

variable {ρ ι ο κ α : Type}

/-! ## One side -/

/-- A process with its inbox, the log of its reads, and the messages it has sent together
with what the medium made of each. -/
structure Side (ρ ι ο κ α : Type) where
  proc : Proc ρ ι ο α
  inbox : List ι
  log : List (ρ × Option ι)
  sent : List (ο × List κ)

/-- One step of a side. The list is what the medium appends to the inbox of the other
side. -/
inductive Side.Step (timeouts : Prop) (wire : ο → List κ → Prop) :
    Side ρ ι ο κ α → List κ → Side ρ ι ο κ α → Prop where
  | recv {s : Side ρ ι ο κ α} {site : ρ} {k : ι → Proc ρ ι ο α} {x : ι} {box : List ι}
      (h : s.proc.view = .recv site k) (hbox : s.inbox = x :: box) :
      Step timeouts wire s [] ⟨k x, box, s.log ++ [(site, some x)], s.sent⟩
  | poll {s : Side ρ ι ο κ α} {site : ρ} {k : Option ι → Proc ρ ι ο α} {x : ι} {box : List ι}
      (h : s.proc.view = .poll site k) (hbox : s.inbox = x :: box) :
      Step timeouts wire s [] ⟨k (some x), box, s.log ++ [(site, some x)], s.sent⟩
  | timeout {s : Side ρ ι ο κ α} {site : ρ} {k : Option ι → Proc ρ ι ο α}
      (ht : timeouts) (h : s.proc.view = .poll site k) :
      Step timeouts wire s [] ⟨k none, s.inbox, s.log ++ [(site, none)], s.sent⟩
  | send {s : Side ρ ι ο κ α} {o : ο} {k : Proc ρ ι ο α} {l : List κ}
      (h : s.proc.view = .send o k) (hw : wire o l) :
      Step timeouts wire s l ⟨k, s.inbox, s.log, s.sent ++ [(o, l)]⟩
  | tau {s : Side ρ ι ο κ α} {k : Proc ρ ι ο α} (h : s.proc.view = .tau k) :
      Step timeouts wire s [] ⟨k, s.inbox, s.log, s.sent⟩

namespace Side

/-- The symbols among the reads of a log. -/
def reads (log : List (ρ × Option ι)) : List ι := log.filterMap Prod.snd

@[simp] theorem reads_nil : reads ([] : List (ρ × Option ι)) = [] := rfl

@[simp] theorem reads_append (l m : List (ρ × Option ι)) : reads (l ++ m) = reads l ++ reads m :=
  List.filterMap_append

@[simp] theorem reads_some (site : ρ) (x : ι) : reads [(site, some x)] = [x] := rfl

@[simp] theorem reads_none (site : ρ) : reads [(site, (none : Option ι))] = [] := rfl

/-- Reads that are all answered, by the answers. -/
theorem reads_of_vals {l : List (ρ × Option ι)} {xs : List ι}
    (h : l.map Prod.snd = xs.map some) : reads l = xs ∧ ∀ e ∈ l, e.2.isSome := by
  constructor
  · have hreads : reads l = (l.map Prod.snd).filterMap id := by
      rw [List.filterMap_map]
      rfl
    rw [hreads, h, List.filterMap_map]
    exact List.filterMap_some
  · intro e he
    have hmem : e.2 ∈ xs.map some := h ▸ List.mem_map_of_mem he
    obtain ⟨x, -, hx⟩ := List.mem_map.mp hmem
    rw [← hx]
    rfl

/-- Symbols appended to the inbox. -/
def receive (s : Side ρ ι ο κ α) (l : List ι) : Side ρ ι ο κ α :=
  { s with inbox := s.inbox ++ l }

@[simp] theorem receive_nil (s : Side ρ ι ο κ α) : s.receive [] = s := by
  simp [receive]

@[simp] theorem receive_receive (s : Side ρ ι ο κ α) (l m : List ι) :
    (s.receive l).receive m = s.receive (l ++ m) := by
  simp [receive]

variable {timeouts : Prop} {wire : ο → List κ → Prop} {s t : Side ρ ι ο κ α} {l : List κ}

/-- A step stays possible when the inbox grows. -/
theorem Step.receive (h : Step timeouts wire s l t) (m : List ι) :
    Step timeouts wire (s.receive m) l (t.receive m) := by
  cases h with
  | recv hv hbox => exact .recv hv (by simp [Side.receive, hbox])
  | poll hv hbox => exact .poll hv (by simp [Side.receive, hbox])
  | timeout ht hv => exact .timeout ht hv
  | send hv hw => exact .send hv hw
  | tau hv => exact .tau hv

/-- Without time-outs and with a deterministic wire a side has at most one step. -/
theorem Step.unique (ht : ¬ timeouts) (hwire : ∀ o l l', wire o l → wire o l' → l = l')
    {l' : List κ} {t' : Side ρ ι ο κ α} (h : Step timeouts wire s l t)
    (h' : Step timeouts wire s l' t') : l = l' ∧ t = t' := by
  cases h with
  | recv hv hbox =>
    cases h' with
    | recv hv' hbox' =>
      rw [hv] at hv'
      rw [hbox] at hbox'
      cases hv'
      cases hbox'
      exact ⟨rfl, rfl⟩
    | poll hv' _ => rw [hv] at hv'; cases hv'
    | timeout ht' _ => exact absurd ht' ht
    | send hv' _ => rw [hv] at hv'; cases hv'
    | tau hv' => rw [hv] at hv'; cases hv'
  | poll hv hbox =>
    cases h' with
    | recv hv' _ => rw [hv] at hv'; cases hv'
    | poll hv' hbox' =>
      rw [hv] at hv'
      rw [hbox] at hbox'
      cases hv'
      cases hbox'
      exact ⟨rfl, rfl⟩
    | timeout ht' _ => exact absurd ht' ht
    | send hv' _ => rw [hv] at hv'; cases hv'
    | tau hv' => rw [hv] at hv'; cases hv'
  | timeout ht' _ => exact absurd ht' ht
  | send hv hw =>
    cases h' with
    | recv hv' _ => rw [hv] at hv'; cases hv'
    | poll hv' _ => rw [hv] at hv'; cases hv'
    | timeout ht' _ => exact absurd ht' ht
    | send hv' hw' =>
      rw [hv] at hv'
      cases hv'
      obtain rfl := hwire _ _ _ hw hw'
      exact ⟨rfl, rfl⟩
    | tau hv' => rw [hv] at hv'; cases hv'
  | tau hv =>
    cases h' with
    | recv hv' _ => rw [hv] at hv'; cases hv'
    | poll hv' _ => rw [hv] at hv'; cases hv'
    | timeout ht' _ => exact absurd ht' ht
    | send hv' _ => rw [hv] at hv'; cases hv'
    | tau hv' =>
      rw [hv] at hv'
      cases hv'
      exact ⟨rfl, rfl⟩

end Side

/-! ## The network -/

variable {ρ₁ ρ₂ ι₁ ι₂ ο₁ ο₂ α β : Type}

structure Net (ρ₁ ρ₂ ι₁ ι₂ ο₁ ο₂ α β : Type) where
  left : Side ρ₁ ι₁ ο₁ ι₂ α
  right : Side ρ₂ ι₂ ο₂ ι₁ β

/-- What the medium may make of a message, and which side may see time-outs. -/
structure Medium (ι₁ ι₂ ο₁ ο₂ : Type) where
  leftWire : ο₁ → List ι₂ → Prop
  rightWire : ο₂ → List ι₁ → Prop
  leftTimeouts : Prop
  rightTimeouts : Prop

/-- The medium that delivers every message and never lets a read time out. -/
def Medium.reliable (f : ο₁ → List ι₂) (g : ο₂ → List ι₁) : Medium ι₁ ι₂ ο₁ ο₂ where
  leftWire o l := l = f o
  rightWire o l := l = g o
  leftTimeouts := False
  rightTimeouts := False

namespace Net

/-- Both processes at their start, nothing under way. -/
def start (p : Proc ρ₁ ι₁ ο₁ α) (q : Proc ρ₂ ι₂ ο₂ β) : Net ρ₁ ρ₂ ι₁ ι₂ ο₁ ο₂ α β :=
  ⟨⟨p, [], [], []⟩, ⟨q, [], [], []⟩⟩

inductive Step (M : Medium ι₁ ι₂ ο₁ ο₂) :
    Net ρ₁ ρ₂ ι₁ ι₂ ο₁ ο₂ α β → Net ρ₁ ρ₂ ι₁ ι₂ ο₁ ο₂ α β → Prop where
  | left {n : Net ρ₁ ρ₂ ι₁ ι₂ ο₁ ο₂ α β} {l : List ι₂} {s : Side ρ₁ ι₁ ο₁ ι₂ α}
      (h : Side.Step M.leftTimeouts M.leftWire n.left l s) : Step M n ⟨s, n.right.receive l⟩
  | right {n : Net ρ₁ ρ₂ ι₁ ι₂ ο₁ ο₂ α β} {l : List ι₁} {s : Side ρ₂ ι₂ ο₂ ι₁ β}
      (h : Side.Step M.rightTimeouts M.rightWire n.right l s) : Step M n ⟨n.left.receive l, s⟩

/-- The states some interleaving reaches. -/
def Reach (M : Medium ι₁ ι₂ ο₁ ο₂) (n m : Net ρ₁ ρ₂ ι₁ ι₂ ο₁ ο₂ α β) : Prop :=
  Relation.ReflTransGen (Step M) n m

theorem Reach.refl (M : Medium ι₁ ι₂ ο₁ ο₂) (n : Net ρ₁ ρ₂ ι₁ ι₂ ο₁ ο₂ α β) : Reach M n n :=
  Relation.ReflTransGen.refl

theorem Reach.head {M : Medium ι₁ ι₂ ο₁ ο₂} {n m k : Net ρ₁ ρ₂ ι₁ ι₂ ο₁ ο₂ α β}
    (h : Step M n m) (h' : Reach M m k) : Reach M n k :=
  Relation.ReflTransGen.head h h'

theorem Reach.trans {M : Medium ι₁ ι₂ ο₁ ο₂} {n m k : Net ρ₁ ρ₂ ι₁ ι₂ ο₁ ο₂ α β}
    (h : Reach M n m) (h' : Reach M m k) : Reach M n k :=
  Relation.ReflTransGen.trans h h'

/-- Neither side can move. -/
def Stuck (M : Medium ι₁ ι₂ ο₁ ο₂) (n : Net ρ₁ ρ₂ ι₁ ι₂ ο₁ ο₂ α β) : Prop :=
  ∀ m, ¬ Step M n m

variable {M : Medium ι₁ ι₂ ο₁ ο₂} {n m : Net ρ₁ ρ₂ ι₁ ι₂ ο₁ ο₂ α β}

/-! ## Stretches of one side -/

/-- A reliable medium performs any run of the left process whose input is in its inbox. -/
theorem reach_left {f : ο₁ → List ι₂} {g : ο₂ → List ι₁} {p p' : Proc ρ₁ ι₁ ο₁ α}
    {ins : List (ρ₁ × Option ι₁)} {outs : List ο₁} (h : Runs p ins outs p')
    (hsome : ∀ e ∈ ins, e.2.isSome) (box : List ι₁) (log : List (ρ₁ × Option ι₁))
    (sent : List (ο₁ × List ι₂)) (right : Side ρ₂ ι₂ ο₂ ι₁ β) :
    Reach (Medium.reliable f g) ⟨⟨p, Side.reads ins ++ box, log, sent⟩, right⟩
      ⟨⟨p', box, log ++ ins, sent ++ outs.map fun o => (o, f o)⟩,
        right.receive (outs.flatMap f)⟩ := by
  induction h generalizing log sent right with
  | refl p => simpa using Reach.refl _ _
  | @recv _ _ site _ x ins _ hv _ ih =>
    have rest := ih (fun e he => hsome e (List.mem_cons_of_mem _ he)) (log ++ [(site, some x)])
      sent right
    have first := Step.left (M := Medium.reliable f g) (n := ⟨⟨_, _, log, sent⟩, right⟩)
      (Side.Step.recv hv (rfl : x :: (Side.reads ins ++ box) = _))
    exact .head first (by simpa using rest)
  | @poll _ _ site _ x ins _ hv _ ih =>
    obtain ⟨y, rfl⟩ := Option.isSome_iff_exists.mp (hsome _ List.mem_cons_self)
    have rest := ih (fun e he => hsome e (List.mem_cons_of_mem _ he)) (log ++ [(site, some y)])
      sent right
    have first := Step.left (M := Medium.reliable f g) (n := ⟨⟨_, _, log, sent⟩, right⟩)
      (Side.Step.poll hv (rfl : y :: (Side.reads ins ++ box) = _))
    exact .head first (by simpa using rest)
  | @send _ _ _ o _ _ hv _ ih =>
    have rest := ih hsome log (sent ++ [(o, f o)]) (right.receive (f o))
    refine Reach.head (.left (.send hv rfl)) ?_
    simpa using rest
  | tau hv _ ih =>
    have rest := ih hsome log sent right
    refine Reach.head (.left (.tau hv)) ?_
    simpa using rest

/-- The network with its sides exchanged. -/
def swap (n : Net ρ₁ ρ₂ ι₁ ι₂ ο₁ ο₂ α β) : Net ρ₂ ρ₁ ι₂ ι₁ ο₂ ο₁ β α := ⟨n.right, n.left⟩

theorem Step.swap {f : ο₁ → List ι₂} {g : ο₂ → List ι₁} (h : Step (Medium.reliable f g) n m) :
    Step (Medium.reliable g f) n.swap m.swap := by
  cases h with
  | left h => exact .right h
  | right h => exact .left h

theorem Reach.swap {f : ο₁ → List ι₂} {g : ο₂ → List ι₁} (h : Reach (Medium.reliable f g) n m) :
    Reach (Medium.reliable g f) n.swap m.swap := by
  induction h with
  | refl => exact Reach.refl _ _
  | tail _ hstep ih => exact Relation.ReflTransGen.tail ih hstep.swap

/-- The same for the right process. -/
theorem reach_right {f : ο₁ → List ι₂} {g : ο₂ → List ι₁} {q q' : Proc ρ₂ ι₂ ο₂ β}
    {ins : List (ρ₂ × Option ι₂)} {outs : List ο₂} (h : Runs q ins outs q')
    (hsome : ∀ e ∈ ins, e.2.isSome) (box : List ι₂) (log : List (ρ₂ × Option ι₂))
    (sent : List (ο₂ × List ι₁)) (left : Side ρ₁ ι₁ ο₁ ι₂ α) :
    Reach (Medium.reliable f g) ⟨left, ⟨q, Side.reads ins ++ box, log, sent⟩⟩
      ⟨left.receive (outs.flatMap g),
        ⟨q', box, log ++ ins, sent ++ outs.map fun o => (o, g o)⟩⟩ :=
  (reach_left h hsome box log sent left).swap

/-! ## Commuting steps -/

theorem step_diamond {f : ο₁ → List ι₂} {g : ο₂ → List ι₁}
    {n a b : Net ρ₁ ρ₂ ι₁ ι₂ ο₁ ο₂ α β} (ha : Step (Medium.reliable f g) n a)
    (hb : Step (Medium.reliable f g) n b) :
    a = b ∨ ∃ c, Step (Medium.reliable f g) a c ∧ Step (Medium.reliable f g) b c := by
  have hf : ∀ o l l', (Medium.reliable f g).leftWire o l → (Medium.reliable f g).leftWire o l' →
      l = l' := fun _ _ _ h h' => h.trans h'.symm
  have hg : ∀ o l l', (Medium.reliable f g).rightWire o l →
      (Medium.reliable f g).rightWire o l' → l = l' := fun _ _ _ h h' => h.trans h'.symm
  cases ha with
  | left ha =>
    cases hb with
    | left hb =>
      obtain ⟨rfl, rfl⟩ := ha.unique not_false hf hb
      exact Or.inl rfl
    | right hb => exact Or.inr ⟨_, .right (hb.receive _), .left (ha.receive _)⟩
  | right ha =>
    cases hb with
    | left hb => exact Or.inr ⟨_, .left (hb.receive _), .right (ha.receive _)⟩
    | right hb =>
      obtain ⟨rfl, rfl⟩ := ha.unique not_false hg hb
      exact Or.inl rfl

theorem Reach.confluent {f : ο₁ → List ι₂} {g : ο₂ → List ι₁}
    {n a b : Net ρ₁ ρ₂ ι₁ ι₂ ο₁ ο₂ α β} (ha : Reach (Medium.reliable f g) n a)
    (hb : Reach (Medium.reliable f g) n b) :
    ∃ c, Reach (Medium.reliable f g) a c ∧ Reach (Medium.reliable f g) b c := by
  refine Relation.church_rosser ?_ ha hb
  intro x y z hy hz
  rcases step_diamond hy hz with rfl | ⟨c, hyc, hzc⟩
  · exact ⟨y, .refl, .refl⟩
  · exact ⟨c, .single hyc, .single hzc⟩

/-- A side whose process has ended takes no part in further steps. -/
theorem Reach.left_done {n m : Net ρ₁ ρ₂ ι₁ ι₂ ο₁ ο₂ α β} {a : α} (h : Reach M n m)
    (hn : n.left.proc = .ret a) : m.left.proc = .ret a := by
  induction h with
  | refl => exact hn
  | tail _ hstep ih =>
    cases hstep with
    | left h => cases h <;> simp_all [Proc.view]
    | right _ => exact ih

/-- If some interleaving lets the left process end, no interleaving can get stuck before. -/
theorem Stuck.left_done {f : ο₁ → List ι₂} {g : ο₂ → List ι₁}
    {n t b : Net ρ₁ ρ₂ ι₁ ι₂ ο₁ ο₂ α β} {a : α} (ht : Reach (Medium.reliable f g) n t)
    (hta : t.left.proc = .ret a) (hb : Reach (Medium.reliable f g) n b)
    (hstuck : Stuck (Medium.reliable f g) b) : b.left.proc = .ret a := by
  obtain ⟨c, htc, hbc⟩ := ht.confluent hb
  rcases Relation.ReflTransGen.cases_head hbc with rfl | ⟨d, hbd, -⟩
  · exact htc.left_done hta
  · exact absurd hbd (hstuck d)

end Net

/-! ## Systems whose steps commute -/

/-- A run of exactly `k` steps. -/
inductive Steps {S : Type 1} (R : S → S → Prop) : Nat → S → S → Prop where
  | refl (a : S) : Steps R 0 a a
  | head {a b c : S} {k : Nat} (h : R a b) (rest : Steps R k b c) : Steps R (k + 1) a c

namespace Steps

variable {S : Type 1} {R : S → S → Prop}

theorem exists_of_reflTransGen {a b : S} (h : Relation.ReflTransGen R a b) :
    ∃ k, Steps R k a b := by
  induction h using Relation.ReflTransGen.head_induction_on with
  | refl => exact ⟨0, .refl _⟩
  | head h _ ih =>
    obtain ⟨k, hk⟩ := ih
    exact ⟨k + 1, .head h hk⟩

theorem reflTransGen {a b : S} {k : Nat} (h : Steps R k a b) : Relation.ReflTransGen R a b := by
  induction h with
  | refl => exact .refl
  | head h _ ih => exact .head h ih

/-- If two steps of one state always commute and one run of `k` steps ends in a state
without steps, then every run has at most `k` steps and can be continued to that same
end. -/
theorem complete (hd : ∀ a b c, R a b → R a c → b = c ∨ ∃ d, R b d ∧ R c d) {k : Nat} {a t : S}
    (hrun : Steps R k a t) (hend : ∀ b, ¬ R t b) {j : Nat} {b : S} (hb : Steps R j a b) :
    j ≤ k ∧ Steps R (k - j) b t := by
  induction k generalizing a b j with
  | zero =>
    cases hrun
    cases hb with
    | refl => exact ⟨le_rfl, .refl _⟩
    | head h _ => exact absurd h (hend _)
  | succ k ih =>
    cases hrun with
    | @head _ a₁ _ _ h₁ rest =>
      cases hb with
      | refl => exact ⟨by omega, .head h₁ rest⟩
      | @head _ b₁ _ j h₂ restb =>
        -- the first steps agree or commute; either way `b₁` reaches `t` in `k` steps
        have hb₁ : Steps R k b₁ t := by
          rcases hd a a₁ b₁ h₁ h₂ with rfl | ⟨d, had, hbd⟩
          · exact rest
          · obtain ⟨hk, hdt⟩ := ih rest (.head had (.refl d))
            obtain ⟨k, rfl⟩ : ∃ k', k = k' + 1 := ⟨k - 1, by omega⟩
            exact .head hbd (by simpa using hdt)
        obtain ⟨hj, hbt⟩ := ih hb₁ restb
        exact ⟨by omega, by simpa [Nat.add_sub_add_right] using hbt⟩

end Steps

end Process
