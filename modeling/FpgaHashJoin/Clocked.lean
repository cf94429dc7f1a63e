import Mathlib.Tactic

/-!
# Synchronous circuits

A circuit is a function from its registers and the inputs of a cycle to its next registers.
`run` is the state after a list of cycles and `trace` what an observer of the pins has
collected, for instance the bytes that have been handed over on a stream.
-/

namespace Clocked

variable {σ ι ο : Type} (step : σ → ι → σ) (obs : σ → ι → List ο)

def run (s : σ) (cycles : List ι) : σ := cycles.foldl step s

def trace (s : σ) : List ι → List ο
  | [] => []
  | i :: is => obs s i ++ trace (step s i) is

@[simp] theorem run_nil (s : σ) : run step s [] = s := rfl

@[simp] theorem run_cons (s : σ) (i : ι) (is : List ι) :
    run step s (i :: is) = run step (step s i) is := rfl

@[simp] theorem trace_nil (s : σ) : trace step obs s [] = [] := rfl

@[simp] theorem trace_cons (s : σ) (i : ι) (is : List ι) :
    trace step obs s (i :: is) = obs s i ++ trace step obs (step s i) is := rfl

theorem run_append (s : σ) (is js : List ι) :
    run step s (is ++ js) = run step (run step s is) js :=
  List.foldl_append

theorem trace_append (s : σ) (is js : List ι) :
    trace step obs s (is ++ js) = trace step obs s is ++ trace step obs (run step s is) js := by
  induction is generalizing s with
  | nil => rfl
  | cons i is ih => simp [ih]

theorem run_snoc (s : σ) (is : List ι) (i : ι) :
    run step s (is ++ [i]) = step (run step s is) i := by
  rw [run_append, run_cons, run_nil]

theorem trace_snoc (s : σ) (is : List ι) (i : ι) :
    trace step obs s (is ++ [i]) = trace step obs s is ++ obs (run step s is) i := by
  rw [trace_append, trace_cons, trace_nil, List.append_nil]

theorem run_map {κ : Type} (f : κ → ι) (s : σ) (is : List κ) :
    run step s (is.map f) = run (fun s i => step s (f i)) s is :=
  List.foldl_map

theorem trace_map {κ : Type} (f : κ → ι) (s : σ) (is : List κ) :
    trace step obs s (is.map f) = trace (fun s i => step s (f i)) (fun s i => obs s (f i)) s is := by
  induction is generalizing s with
  | nil => rfl
  | cons i is ih => rw [List.map_cons, trace_cons, trace_cons, ih]

theorem trace_isPrefix {s : σ} {is js : List ι} (h : is <+: js) :
    trace step obs s is <+: trace step obs s js := by
  obtain ⟨rest, rfl⟩ := h
  rw [trace_append]
  exact List.prefix_append _ _

/-- **Induction along a run**, for facts about the whole history. -/
theorem history_induction {ok : ι → Prop} (I : List ι → Prop) (hnil : I [])
    (hsnoc : ∀ is i, (∀ j ∈ is, ok j) → ok i → I is → I (is ++ [i])) {cycles : List ι}
    (hok : ∀ i ∈ cycles, ok i) : I cycles := by
  induction cycles using List.reverseRecOn with
  | nil => exact hnil
  | append_singleton is i ih =>
    have his : ∀ j ∈ is, ok j := fun j hj => hok j (List.mem_append_left _ hj)
    exact hsnoc is i his (hok i (by simp)) (ih his)

variable {step obs}

private theorem invariant_from {ok : ι → Prop} (I : σ → List ο → Prop) {s : σ} {os : List ο}
    (hinit : I s os) (hstep : ∀ s i os, ok i → I s os → I (step s i) (os ++ obs s i))
    {cycles : List ι} (hok : ∀ i ∈ cycles, ok i) :
    I (run step s cycles) (os ++ trace step obs s cycles) := by
  induction cycles generalizing s os with
  | nil => simpa using hinit
  | cons i is ih =>
    have hfirst := hstep s i os (hok i List.mem_cons_self) hinit
    rw [trace_cons, ← List.append_assoc]
    exact ih hfirst fun j hj => hok j (List.mem_cons_of_mem _ hj)

/-- **The invariant rule.** A relation between the registers and what has been observed that
every admitted cycle keeps. -/
theorem invariant (ok : ι → Prop) (I : σ → List ο → Prop) {s : σ} (hinit : I s [])
    (hstep : ∀ s i os, ok i → I s os → I (step s i) (os ++ obs s i)) {cycles : List ι}
    (hok : ∀ i ∈ cycles, ok i) : I (run step s cycles) (trace step obs s cycles) :=
  invariant_from I hinit hstep hok

/-- A part of the registers that changes with what is observed and with nothing else. -/
theorem run_view {τ : Type} {ok : ι → Prop} (view : σ → τ) (next : τ → ο → τ)
    (hstep : ∀ s i, ok i → view (step s i) = run next (view s) (obs s i)) {s : σ}
    {cycles : List ι} (hok : ∀ i ∈ cycles, ok i) :
    view (run step s cycles) = run next (view s) (trace step obs s cycles) := by
  induction cycles generalizing s with
  | nil => rfl
  | cons i is ih =>
    rw [run_cons, ih fun j hj => hok j (List.mem_cons_of_mem _ hj), trace_cons, run_append,
      hstep s i (hok i List.mem_cons_self)]

/-- When at most one thing is observed in a cycle, there is a moment for every number of
observations. -/
theorem exists_moment (hone : ∀ s i, (obs s i).length ≤ 1) {s : σ} {cycles : List ι} {n : Nat}
    (hn : n ≤ (trace step obs s cycles).length) :
    ∃ pre, pre <+: cycles ∧ trace step obs s pre = (trace step obs s cycles).take n := by
  induction cycles using List.reverseRecOn generalizing n with
  | nil => exact ⟨[], List.nil_prefix, by simp⟩
  | append_singleton is i ih =>
    by_cases hle : n ≤ (trace step obs s is).length
    · obtain ⟨pre, hpre, htrace⟩ := ih hle
      refine ⟨pre, hpre.trans (List.prefix_append _ _), ?_⟩
      rw [htrace, trace_snoc, List.take_append_of_le_length hle]
    · refine ⟨is ++ [i], List.prefix_refl _, (List.take_of_length_le ?_).symm⟩
      have hlast := hone (run step s is) i
      rw [trace_snoc, List.length_append]
      omega

/-! ## Triples

What a circuit shows while it takes given inputs, from one kind of state to another. -/

/-- From every state with `P`, the inputs lead to a state with `Q` and show `outs`. -/
def Triple (step : σ → ι → σ) (obs : σ → ι → List ο) (P : σ → Prop) (inputs : List ι)
    (outs : List ο) (Q : σ → Prop) : Prop :=
  ∀ s, P s → Q (run step s inputs) ∧ trace step obs s inputs = outs

namespace Triple

variable {P Q R : σ → Prop} {is js : List ι} {os os' : List ο}

theorem nil (P : σ → Prop) : Triple step obs P [] [] P := fun _ h => ⟨h, rfl⟩

theorem append (h : Triple step obs P is os Q) (h' : Triple step obs Q js os' R) :
    Triple step obs P (is ++ js) (os ++ os') R := by
  intro s hs
  obtain ⟨hq, rfl⟩ := h s hs
  obtain ⟨hr, rfl⟩ := h' _ hq
  rw [run_append, trace_append]
  exact ⟨hr, rfl⟩

/-- A single cycle. -/
theorem one {i : ι} (h : ∀ s, P s → Q (step s i) ∧ obs s i = os) :
    Triple step obs P [i] os Q := by
  intro s hs
  obtain ⟨hq, rfl⟩ := h s hs
  exact ⟨hq, List.append_nil _⟩

theorem weaken {P' Q' : σ → Prop} (h : Triple step obs P is os Q) (hP : ∀ s, P' s → P s)
    (hQ : ∀ s, Q s → Q' s) : Triple step obs P' is os Q' := by
  intro s hs
  obtain ⟨hq, hos⟩ := h s (hP s hs)
  exact ⟨hQ _ hq, hos⟩

/-- A circuit behind a wire that translates its inputs. -/
theorem of_map {κ : Type} {f : κ → ι} {is : List κ} (h : Triple step obs P (is.map f) os Q) :
    Triple (fun s i => step s (f i)) (fun s i => obs s (f i)) P is os Q := by
  intro s hs
  rw [← run_map, ← trace_map]
  exact h s hs

end Triple

/-! ## Serial links

A transmitter shows a value on a line in every cycle and takes items from a stream; a receiver
listens to the line and reports what it has heard. The time of the transmitter falls into
segments of known lengths. When each kind of segment says what is heard in it, what is owed for
the items that are taken and with which kind it goes on, then what is heard in a whole run is
what is owed for all items, up to a delay. -/

/-- A transmitter and a receiver. In a cycle the transmitter shows a value of the line together
with the items that it takes. -/
structure SerialLink (σ τ ι β γ ε : Type) where
  step : σ → ι → σ
  shows : σ → ι → List (β × List γ)
  hear : τ → β → τ
  reports : τ → β → List ε

/-- What is shown while the line has the given values and nothing is taken. -/
def silent {β γ : Type} (xs : List β) : List (β × List γ) := xs.map (·, [])

theorem silent_append {β γ : Type} (xs ys : List β) :
    (silent (xs ++ ys) : List (β × List γ)) = silent xs ++ silent ys :=
  List.map_append

namespace SerialLink

variable {τ β γ ε : Type} (L : SerialLink σ τ ι β γ ε) (s : σ) (r : τ)

/-- The values on the line. -/
def line (is : List ι) : List β := (trace L.step L.shows s is).map Prod.fst

/-- The items that are taken. -/
def taken (is : List ι) : List γ := (trace L.step L.shows s is).flatMap Prod.snd

/-- What the receiver reports about the line. -/
def heard (xs : List β) : List ε := trace L.hear L.reports r xs

theorem line_append (is js : List ι) :
    L.line s (is ++ js) = L.line s is ++ L.line (run L.step s is) js := by
  rw [line, trace_append, List.map_append]
  rfl

theorem taken_append (is js : List ι) :
    L.taken s (is ++ js) = L.taken s is ++ L.taken (run L.step s is) js := by
  rw [taken, trace_append, List.flatMap_append]
  rfl

theorem heard_append (xs ys : List β) :
    L.heard r (xs ++ ys) = L.heard r xs ++ L.heard (run L.hear r xs) ys :=
  trace_append _ _ _ _ _

variable {L s r}

theorem taken_of_isPrefix {is js : List ι} (h : is <+: js) (hjs : L.taken s js = []) :
    L.taken s is = [] := by
  obtain ⟨rest, rfl⟩ := h
  rw [taken_append, List.append_eq_nil_iff] at hjs
  exact hjs.1

theorem line_silent {P Q : σ → Prop} {is : List ι} {xs : List β}
    (h : Triple L.step L.shows P is (silent xs) Q) (hs : P s) :
    Q (run L.step s is) ∧ L.line s is = xs ∧ L.taken s is = [] := by
  obtain ⟨hq, htrace⟩ := h s hs
  refine ⟨hq, ?_, ?_⟩
  · rw [line, htrace, silent, List.map_map]
    exact List.map_id xs
  · rw [taken, htrace, silent, List.flatMap_map]
    simp

/-- The kinds of segments: the states in which a segment begins, its length, what is heard in it,
and what is heard from its beginning on when the given items are taken after that. -/
structure Stages (L : SerialLink σ τ ι β γ ε) (Φ : Type) where
  In : Φ → σ → τ → Prop
  len : Φ → Nat
  events : Φ → List ε
  owed : Φ → List γ → List ε

/-- What a segment does. -/
structure Segment {Φ : Type} (S : L.Stages Φ) (ph : Φ) (s : σ) (r : τ) (is : List ι) (ph' : Φ) :
    Prop where
  next : S.In ph' (run L.step s is) (run L.hear r (L.line s is))
  heard_eq : L.heard r (L.line s is) = S.events ph
  owed_eq : ∀ xs, S.owed ph (L.taken s is ++ xs) = S.events ph ++ S.owed ph' xs
  late : L.taken s is.dropLast = []

/-- A segment, and what is heard after it. -/
theorem Segment.heard_append {Φ : Type} {S : L.Stages Φ} {ph ph' : Φ} {a : List ι}
    (h : Segment S ph s r a ph') (b : List ι) :
    L.heard r (L.line s (a ++ b)) = S.events ph ++
      L.heard (run L.hear r (L.line s a)) (L.line (run L.step s a) b) := by
  rw [line_append, SerialLink.heard_append, h.heard_eq]

theorem Segment.owed_append {Φ : Type} {S : L.Stages Φ} {ph ph' : Φ} {a : List ι}
    (h : Segment S ph s r a ph') (b : List ι) :
    S.owed ph (L.taken s (a ++ b)) =
      S.events ph ++ S.owed ph' (L.taken (run L.step s a) b) := by
  rw [taken_append, h.owed_eq]

/-- Stages through which the transmitter goes as long as its inputs are admitted. -/
structure Stages.Sound {Φ : Type} (S : L.Stages Φ) (Fed : σ → List ι → Prop) : Prop where
  len_pos : ∀ ph, 0 < S.len ph
  events_isPrefix : ∀ ph xs, S.events ph <+: S.owed ph xs
  fed_left : ∀ {s is js}, Fed s (is ++ js) → Fed s is
  fed_right : ∀ {s is js}, Fed s (is ++ js) → Fed (run L.step s is) js
  padding : ∀ {s is n}, Fed s is → is.length ≤ n → ∃ js, (is ++ js).length = n ∧ Fed s (is ++ js)
  segment : ∀ {ph s r is}, S.In ph s r → Fed s is → is.length = S.len ph →
    ∃ ph', Segment S ph s r is ph'

theorem exists_start {is : List ι} {n : Nat} (hlen : n ≤ is.length) :
    ∃ a b, is = a ++ b ∧ a.length = n :=
  ⟨is.take n, is.drop n, (List.take_append_drop n is).symm, List.length_take_of_le hlen⟩

namespace Stages.Sound

variable {Φ : Type} {S : L.Stages Φ} {Fed : σ → List ι → Prop} (h : S.Sound Fed) {ph : Φ}
  {is pre q : List ι}

include h

/-- **Nothing is heard but what is owed.** -/
theorem heard_isPrefix (hin : S.In ph s r) (hfed : Fed s is) :
    L.heard r (L.line s is) <+: S.owed ph (L.taken s is) := by
  -- on the number of cycles, a segment at a time
  induction hn : is.length using Nat.strong_induction_on generalizing ph s r is with
  | _ n ih =>
    by_cases hlen : S.len ph ≤ is.length
    · obtain ⟨a, b, rfl, ha⟩ := exists_start hlen
      obtain ⟨ph', hseg⟩ := h.segment hin (h.fed_left hfed) ha
      rw [hseg.heard_append, hseg.owed_append, List.prefix_append_right_inj]
      have hpos := h.len_pos ph
      rw [List.length_append] at hn
      exact ih b.length (by omega) hseg.next (h.fed_right hfed) rfl
    · -- an unfinished segment is the beginning of a finished one
      obtain ⟨js, hjs, hfed'⟩ := h.padding hfed (by omega : is.length ≤ S.len ph)
      obtain ⟨ph', hseg⟩ := h.segment hin hfed' hjs
      have hall := hseg.heard_eq
      rw [line_append, heard_append] at hall
      exact (List.prefix_append _ _).trans (hall ▸ h.events_isPrefix ph _)

/-- Inside of a segment nothing is taken. -/
theorem taken_inside (hin : S.In ph s r) (hfed : Fed s is) (hlen : is.length < S.len ph) :
    L.taken s is = [] := by
  obtain ⟨js, hjs, hfed'⟩ := h.padding hfed hlen.le
  obtain ⟨ph', hseg⟩ := h.segment hin hfed' hjs
  have hne : js ≠ [] := by
    rintro rfl
    rw [List.append_nil] at hjs
    omega
  refine taken_of_isPrefix ?_ hseg.late
  rw [List.dropLast_append_of_ne_nil hne]
  exact List.prefix_append _ _

/-- **Everything that is owed is heard**, with the delay that the segments have when nothing is
taken any more. -/
theorem owed_isPrefix {delay : Nat}
    (hdelay : ∀ {ph s r is}, S.In ph s r → Fed s is → delay ≤ is.length →
      S.owed ph [] <+: L.heard r (L.line s is))
    (hin : S.In ph s r) (hfed : Fed s (pre ++ q)) (hlen : delay ≤ q.length) :
    S.owed ph (L.taken s pre) <+: L.heard r (L.line s (pre ++ q)) := by
  induction hn : pre.length using Nat.strong_induction_on generalizing ph s r pre with
  | _ n ih =>
    by_cases hle : S.len ph ≤ pre.length
    · obtain ⟨a, b, rfl, ha⟩ := exists_start hle
      rw [List.append_assoc] at hfed ⊢
      obtain ⟨ph', hseg⟩ := h.segment hin (h.fed_left hfed) ha
      rw [hseg.heard_append, hseg.owed_append, List.prefix_append_right_inj]
      have hpos := h.len_pos ph
      rw [List.length_append] at hn
      exact ih b.length (by omega) hseg.next (h.fed_right hfed) rfl
    · rw [h.taken_inside hin (h.fed_left hfed) (by omega)]
      exact hdelay hin hfed (by rw [List.length_append]; omega)

end Stages.Sound

end SerialLink

end Clocked
