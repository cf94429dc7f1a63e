import FpgaHashJoin.Process.Network

/-!
# Event machines

Most processes take their input in units: they read a whole message, react to it, and wait
for the next one. An event machine describes such a process at the points where it waits.
An event is a unit of input, given by the answers of the reads that take it; the machine
says for every state which event it accepts, what it sends in reaction, and which state it
waits in afterwards.

Between two waiting points a run may stop anywhere. `Path.between` says where: either the
machine has accepted some events and the process is still sending the reaction to the last
one, or all reactions have been sent and the process has read a proper part of the next
event. With it a statement about an arbitrary run reduces to a statement about the machine.
-/

namespace Process

variable {ρ ι ο α S E O : Type}

/-- The next action is a read, or there is none. -/
def Proc.Waiting (p : Proc ρ ι ο α) : Prop :=
  match p.view with
  | .send _ _ => False
  | .tau _ => False
  | _ => True

theorem Proc.Waiting.silent {p q : Proc ρ ι ο α} {outs : List ο} (hp : p.Waiting)
    (h : Runs p [] outs q) : outs = [] ∧ q = p := by
  cases h with
  | refl => exact ⟨rfl, rfl⟩
  | send hv _ => simp [Proc.Waiting, hv] at hp
  | tau hv _ => simp [Proc.Waiting, hv] at hp

/-- Given the answers `vals`, the process writes `outs` and then waits, or has ended. -/
def Settles (p : Proc ρ ι ο α) (vals : List (Option ι)) (outs : List ο) (q : Proc ρ ι ο α) : Prop :=
  (∃ ins, Runs p ins outs q ∧ ins.map Prod.snd = vals) ∧ q.Waiting

/-- What a process writes is determined by the answers it is given. -/
theorem Settles.unique {p q q' : Proc ρ ι ο α} {vals : List (Option ι)} {outs outs' : List ο}
    (h : Settles p vals outs q) (h' : Settles p vals outs' q') : outs = outs' ∧ q = q' := by
  obtain ⟨⟨ins, hrun, hins⟩, hq⟩ := h
  obtain ⟨⟨ins', hrun', hins'⟩, hq'⟩ := h'
  have hsame : ins.map Prod.snd = ins'.map Prod.snd := hins.trans hins'.symm
  have hlen : ins.length = ins'.length := by simpa using congrArg List.length hsame
  rcases hrun.linear hrun' (Or.inl (by rw [hsame])) with
    ⟨ins₂, outs₂, hcont, hi, ho⟩ | ⟨ins₂, outs₂, hcont, hi, ho⟩
  · obtain rfl : ins₂ = [] := by
      apply List.eq_nil_of_length_eq_zero
      have h := congrArg List.length hi
      rw [List.length_append] at h
      omega
    obtain ⟨rfl, rfl⟩ := hq.silent hcont
    exact ⟨by simpa using ho.symm, rfl⟩
  · obtain rfl : ins₂ = [] := by
      apply List.eq_nil_of_length_eq_zero
      have h := congrArg List.length hi
      rw [List.length_append] at h
      omega
    obtain ⟨rfl, rfl⟩ := hq'.silent hcont
    exact ⟨by simpa using ho, rfl⟩

/-- A process that is given the answers of a run of it and then others. -/
theorem Settles.after_iff {p p₀ q : Proc ρ ι ο α} {ins₀ : List (ρ × Option ι)} {outs₀ outs : List ο}
    {vals : List (Option ι)} (h : Runs p ins₀ outs₀ p₀) :
    Settles p (ins₀.map Prod.snd ++ vals) outs q ↔
      ∃ outs', outs = outs₀ ++ outs' ∧ Settles p₀ vals outs' q := by
  constructor
  · rintro ⟨⟨ins, hrun, hins⟩, hq⟩
    rcases h.linear hrun (Or.inl ⟨vals, hins.symm⟩) with
      ⟨ins₁, outs₁, hcont, rfl, rfl⟩ | ⟨ins₁, outs₁, hcont, rfl, rfl⟩
    · rw [List.map_append, List.append_cancel_left_eq] at hins
      exact ⟨outs₁, rfl, ⟨ins₁, hcont, hins⟩, hq⟩
    · -- the process waits before the run has ended, so it has ended
      rw [List.map_append, List.append_assoc, eq_comm, List.append_right_eq_self,
        List.append_eq_nil_iff, List.map_eq_nil_iff] at hins
      obtain ⟨rfl, rfl⟩ := hins
      obtain ⟨rfl, rfl⟩ := hq.silent hcont
      exact ⟨[], by simp, ⟨[], .refl _, rfl⟩, hq⟩
  · rintro ⟨outs', rfl, ⟨ins, hrun, rfl⟩, hq⟩
    exact ⟨⟨ins₀ ++ ins, h.trans hrun, List.map_append⟩, hq⟩

/-- A description of a process by what it does with each unit of its input. `vals e` are the
answers that make up the event `e`, `label s e` the same answers with the places at which
the state `s` reads them; `obs` is what the description keeps of a message. -/
structure Machine (ρ ι ο α S E O : Type) where
  vals : E → List (Option ι)
  obs : ο → List O
  Rep : S → Proc ρ ι ο α → Prop
  label : S → E → List (ρ × Option ι)
  step : S → E → Option (List O × S)
  label_vals : ∀ {s e r}, step s e = some r → (label s e).map Prod.snd = vals e
  waiting : ∀ {s p}, Rep s p → p.Waiting
  sim : ∀ {s p e os s'}, Rep s p → step s e = some (os, s') →
    ∃ mid outs p', Runs p (label s e) [] mid ∧ Runs mid [] outs p' ∧
      outs.flatMap obs = os ∧ Rep s' p'

namespace Machine

variable {M : Machine ρ ι ο α S E O} {s t u : S} {p q : Proc ρ ι ο α} {e : E}
  {es fs : List E} {l m : List (ρ × Option ι)} {os ps : List O}

/-- The machine accepts the events one after the other. -/
inductive Path (M : Machine ρ ι ο α S E O) :
    S → List E → List (ρ × Option ι) → List O → S → Prop where
  | nil (s : S) : Path M s [] [] [] s
  | cons {s s' t : S} {e : E} {es : List E} {l : List (ρ × Option ι)} {os os' : List O}
      (h : M.step s e = some (os, s')) (rest : Path M s' es l os' t) :
      Path M s (e :: es) (M.label s e ++ l) (os ++ os') t

namespace Path

theorem single {s' : S} (h : M.step s e = some (os, s')) : M.Path s [e] (M.label s e) os s' := by
  simpa using Path.cons h (Path.nil s')

theorem trans (h : M.Path s es l os t) (h' : M.Path t fs m ps u) :
    M.Path s (es ++ fs) (l ++ m) (os ++ ps) u := by
  induction h with
  | nil s => exact h'
  | cons hstep _ ih => simpa [List.append_assoc] using Path.cons hstep (ih h')

/-- A path is determined by its events. -/
theorem unique {l' : List (ρ × Option ι)} {os' : List O} {t' : S} (h : M.Path s es l os t)
    (h' : M.Path s es l' os' t') : l = l' ∧ os = os' ∧ t = t' := by
  induction h generalizing l' os' t' with
  | nil s =>
    cases h'
    exact ⟨rfl, rfl, rfl⟩
  | cons hstep _ ih =>
    cases h' with
    | cons hstep' rest' =>
      rw [hstep] at hstep'
      cases hstep'
      obtain ⟨rfl, rfl, rfl⟩ := ih rest'
      exact ⟨rfl, rfl, rfl⟩

/-- A path over a list of events passes through every prefix of it. -/
theorem split (h : M.Path s (es ++ fs) l os t) :
    ∃ l₁ os₁ u l₂ os₂, M.Path s es l₁ os₁ u ∧ M.Path u fs l₂ os₂ t ∧
      l = l₁ ++ l₂ ∧ os = os₁ ++ os₂ := by
  induction es generalizing s l os with
  | nil => exact ⟨[], [], s, l, os, .nil s, h, rfl, rfl⟩
  | cons e es ih =>
    cases h with
    | cons hstep rest =>
      obtain ⟨l₁, os₁, u, l₂, os₂, h₁, h₂, rfl, rfl⟩ := ih rest
      exact ⟨_, _, u, l₂, os₂, .cons hstep h₁, h₂, by simp, by simp⟩

/-- What every step preserves holds at the end. -/
theorem preserves {P : S → Prop} (h : M.Path s es l os t)
    (hstep : ∀ {s e os s'}, P s → M.step s e = some (os, s') → P s') (hs : P s) : P t := by
  induction h with
  | nil s => exact hs
  | cons h _ ih => exact ih (hstep hs h)

theorem vals (h : M.Path s es l os t) : l.map Prod.snd = es.flatMap M.vals := by
  induction h with
  | nil s => rfl
  | cons hstep _ ih => simp [M.label_vals hstep, ih]

/-- The process follows the machine. -/
theorem runs (h : M.Path s es l os t) (hp : M.Rep s p) :
    ∃ outs q, Runs p l outs q ∧ outs.flatMap M.obs = os ∧ M.Rep t q := by
  induction h generalizing p with
  | nil s => exact ⟨[], p, .refl p, rfl, hp⟩
  | cons hstep _ ih =>
    obtain ⟨mid, outs, p', hread, hsend, rfl, hp'⟩ := M.sim hp hstep
    obtain ⟨outs', q, hrun, rfl, hq⟩ := ih hp'
    refine ⟨outs ++ outs', q, (hread.trans_nil hsend).trans hrun, ?_, hq⟩
    simp

end Path

/-- Take the events one after the other, as long as they are accepted. -/
def follow (M : Machine ρ ι ο α S E O) : S → List E → Option (List O × S)
  | s, [] => some ([], s)
  | s, e :: es => do
    let (os, s') ← M.step s e
    let (os', t) ← M.follow s' es
    return (os ++ os', t)

theorem exists_path_of_follow (h : M.follow s es = some (os, t)) : ∃ l, M.Path s es l os t := by
  induction es generalizing s os with
  | nil =>
    obtain ⟨rfl, rfl⟩ := Prod.mk.inj (Option.some.inj h)
    exact ⟨[], .nil s⟩
  | cons e es ih =>
    obtain ⟨⟨os₁, s'⟩, hstep, h⟩ := Option.bind_eq_some_iff.mp h
    obtain ⟨⟨os₂, t'⟩, hrest, h⟩ := Option.bind_eq_some_iff.mp h
    obtain ⟨rfl, rfl⟩ := Prod.mk.inj (Option.some.inj h)
    obtain ⟨l, hpath⟩ := ih hrest
    exact ⟨_, .cons hstep hpath⟩

/-- Where a run is that has accepted events leading from `s` to `t`: the process is still
sending the reaction to the last event, or it reads the next one. -/
inductive At (M : Machine ρ ι ο α S E O) (t : S) (todo : List E) (l : List (ρ × Option ι))
    (os : List O) (ins : List (ρ × Option ι)) (outs : List ο) (q : Proc ρ ι ο α) : Prop where
  | sending {rest : List ο} {p' : Proc ρ ι ο α} (hins : ins = l) (hrun : Runs q [] rest p')
      (hp' : M.Rep t p') (hos : os = outs.flatMap M.obs ++ rest.flatMap M.obs)
  | reading {part : List (ρ × Option ι)} {p' : Proc ρ ι ο α} {e : E} (hins : ins = l ++ part)
      (hp' : M.Rep t p') (hrun : Runs p' part [] q) (hos : os = outs.flatMap M.obs)
      (hhead : todo.head? = some e) (hpart : part <+: M.label t e) (hne : part ≠ M.label t e)

theorem At.outs_le {todo : List E} {ins : List (ρ × Option ι)} {outs : List ο}
    (h : M.At t todo l os ins outs q) : outs.flatMap M.obs <+: os := by
  cases h with
  | sending _ _ _ hos => exact ⟨_, hos.symm⟩
  | reading _ _ _ hos => rw [hos]

theorem At.label_le {todo : List E} {ins : List (ρ × Option ι)} {outs : List ο}
    (h : M.At t todo l os ins outs q) : l <+: ins := by
  cases h with
  | sending hins => rw [hins]
  | reading hins => exact ⟨_, hins.symm⟩

/-- **Every run stands between two waiting points of the machine.** -/
theorem Path.between {ins : List (ρ × Option ι)} {outs : List ο} (h : M.Path s es l os t)
    (hp : M.Rep s p) (hrun : Runs p ins outs q)
    (hins : ins.map Prod.snd <+: es.flatMap M.vals) :
    ∃ done todo l₁ os₁ u, es = done ++ todo ∧ M.Path s done l₁ os₁ u ∧
      M.At u todo l₁ os₁ ins outs q := by
  induction h generalizing p ins outs with
  | nil s =>
    obtain rfl : ins = [] := by simpa using hins
    obtain ⟨rfl, rfl⟩ := (M.waiting hp).silent hrun
    exact ⟨[], [], [], [], s, rfl, .nil s, .sending rfl (.refl _) hp rfl⟩
  | @cons s s' t e es l os os' hstep rest ih =>
    obtain ⟨mid, outs₁, p', hread, hsend, rfl, hp'⟩ := M.sim hp hstep
    have hvals := M.label_vals hstep
    have hcmp : (M.label s e).map Prod.snd <+: ins.map Prod.snd ∨
        ins.map Prod.snd <+: (M.label s e).map Prod.snd := by
      rw [hvals]
      exact List.prefix_or_prefix_of_prefix (List.prefix_append _ _) hins
    have hfirst : Runs p (M.label s e) outs₁ p' := hread.trans_nil hsend
    rcases hfirst.linear hrun hcmp with
      ⟨ins₂, outs₂, hcont, rfl, rfl⟩ | ⟨ins₂, outs₂, hcont, hlab, houts⟩
    · -- the first event has been accepted and its reaction sent
      have hins₂ : ins₂.map Prod.snd <+: es.flatMap M.vals := by
        simpa [hvals, List.prefix_append_right_inj] using hins
      obtain ⟨done, todo, l₁, os₁, u, rfl, hpath, hat⟩ := ih hp' hcont hins₂
      refine ⟨e :: done, todo, _, _, u, rfl, .cons hstep hpath, ?_⟩
      cases hat with
      | sending hi hr hr' ho => exact .sending (by rw [hi]) hr hr' (by simp [ho])
      | reading hi hr' hr ho hh hpt hne =>
        exact .reading (by rw [hi, List.append_assoc]) hr' hr (by simp [ho]) hh hpt hne
    · by_cases hnil : ins₂ = []
      · -- all of the first event has been read
        subst hnil
        refine ⟨[e], es, _, _, s', rfl, .single hstep, ?_⟩
        refine .sending (by simpa using hlab.symm) hcont hp' ?_
        rw [← List.flatMap_append, ← houts]
      · refine ⟨[], e :: es, [], [], s, rfl, .nil s, ?_⟩
        have hout : outs = [] := by
          rcases hrun.linear hread hcmp.symm with ⟨_, o, _, _, ho⟩ | ⟨i, _, _, hi, _⟩
          · exact (List.append_eq_nil_iff.mp ho.symm).1
          · rw [hlab, List.append_assoc] at hi
            have hlen := congrArg List.length hi
            have hpos := List.length_pos_iff.mpr hnil
            simp only [List.length_append] at hlen
            omega
        subst hout
        refine .reading rfl hp hrun rfl rfl ⟨_, hlab.symm⟩ ?_
        intro heq
        rw [hlab] at heq
        exact hnil (List.append_right_eq_self.mp heq.symm)

/-- The process waits in the state `s` after it has sent something that is not observed. -/
def Enters (M : Machine ρ ι ο α S E O) (s : S) (p : Proc ρ ι ο α) : Prop :=
  ∃ outs q, Runs p [] outs q ∧ outs.flatMap M.obs = [] ∧ M.Rep s q

/-- `Path.runs` from before the first waiting point. -/
theorem Path.runs_of_enters (h : M.Path s es l os t) (hp : M.Enters s p) :
    ∃ outs q, Runs p l outs q ∧ outs.flatMap M.obs = os ∧ M.Rep t q := by
  obtain ⟨outs₀, p₀, hstart, hobs, hp₀⟩ := hp
  obtain ⟨outs, q, hrun, rfl, hq⟩ := h.runs hp₀
  refine ⟨outs₀ ++ outs, q, hstart.trans hrun, ?_, hq⟩
  rw [List.flatMap_append, hobs, List.nil_append]

theorem Path.settles (h : M.Path s es l os t) (hp : M.Enters s p) :
    ∃ outs q, Settles p (es.flatMap M.vals) outs q ∧ outs.flatMap M.obs = os ∧ M.Rep t q := by
  obtain ⟨outs, q, hrun, hobs, hq⟩ := h.runs_of_enters hp
  exact ⟨outs, q, ⟨⟨l, hrun, h.vals⟩, M.waiting hq⟩, hobs, hq⟩

/-- `Path.between` for a run that begins before the first waiting point. -/
theorem Path.between_of_enters {ins : List (ρ × Option ι)} {outs : List ο}
    (h : M.Path s es l os t) (hp : M.Enters s p) (hrun : Runs p ins outs q)
    (hins : ins.map Prod.snd <+: es.flatMap M.vals) :
    ∃ done todo l₁ os₁ u, es = done ++ todo ∧ M.Path s done l₁ os₁ u ∧
      M.At u todo l₁ os₁ ins outs q := by
  obtain ⟨outs₀, p₀, hstart, hobs, hp₀⟩ := hp
  rcases hstart.linear hrun (Or.inl (List.nil_prefix)) with
    ⟨ins', outs', hcont, hi, rfl⟩ | ⟨ins', outs', hcont, hi, ho⟩
  · obtain rfl : ins = ins' := hi
    obtain ⟨done, todo, l₁, os₁, u, hes, hpath, hat⟩ := h.between hp₀ hcont hins
    refine ⟨done, todo, l₁, os₁, u, hes, hpath, ?_⟩
    cases hat with
    | sending hi hr hp' ho => exact .sending hi hr hp' (by simp [hobs, ho])
    | reading hi hp' hr ho hh hpt hne => exact .reading hi hp' hr (by simp [hobs, ho]) hh hpt hne
  · obtain ⟨rfl, rfl⟩ := List.append_eq_nil_iff.mp hi.symm
    refine ⟨[], es, [], [], s, rfl, .nil s, .sending rfl hcont hp₀ ?_⟩
    rw [← List.flatMap_append, ← ho, hobs]

/-- On input that the machine accepts, a run has sent at most what the machine sends. -/
theorem Path.obs_le {ins : List (ρ × Option ι)} {outs : List ο} (h : M.Path s es l os t)
    (hp : M.Enters s p) (hrun : Runs p ins outs q)
    (hins : ins.map Prod.snd <+: es.flatMap M.vals) : outs.flatMap M.obs <+: os := by
  obtain ⟨done, todo, l₁, os₁, u, rfl, hpath, hat⟩ := h.between_of_enters hp hrun hins
  obtain ⟨l₂, os₂, u', l₃, os₃, hdone, -, -, rfl⟩ := h.split
  obtain ⟨-, rfl, -⟩ := hpath.unique hdone
  exact hat.outs_le.trans (List.prefix_append _ _)

/-- A run that has sent something the machine only sends for the last event has read that
event. -/
theorem Path.all_read {ins : List (ρ × Option ι)} {outs : List ο} {o : O} (h : M.Path s es l os t)
    (h' : M.Path t [e] m ps u) (hp : M.Enters s p) (hrun : Runs p ins outs q)
    (hins : ins.map Prod.snd <+: (es ++ [e]).flatMap M.vals) (ho : o ∈ outs.flatMap M.obs)
    (hnew : o ∉ os) : l ++ m <+: ins := by
  obtain ⟨done, todo, l₁, os₁, v, hsplit, hpath, hat⟩ := (h.trans h').between_of_enters hp hrun hins
  have hmem : o ∈ os₁ := hat.outs_le.subset ho
  rcases List.eq_nil_or_concat todo with rfl | ⟨todo', e', rfl⟩
  · rw [List.append_nil] at hsplit
    subst hsplit
    obtain ⟨rfl, -, -⟩ := hpath.unique (h.trans h')
    exact hat.label_le
  · rw [List.concat_eq_append, ← List.append_assoc] at hsplit
    obtain ⟨rfl, -⟩ := List.append_inj' hsplit rfl
    obtain ⟨l₂, os₂, u', l₃, os₃, hdone, -, -, rfl⟩ := h.split
    obtain ⟨-, rfl, -⟩ := hpath.unique hdone
    exact absurd (List.mem_append_left _ hmem) hnew

end Machine

end Process
