import Mathlib.Data.List.ReduceOption
import FpgaHashJoin.Host.Simulation

/-!
# Every run of the client is a run of its machine

Whatever well-formed frames arrive, and wherever waits time out, the reads of the client make
up events of its machine: whole frames, time-outs in front of a frame, and at most one frame
that is cut off, after which the call ends.
-/

namespace FpgaHashJoin

open Process

/-! ## Answers as events -/

/-- The frames among the events. -/
def framesOf (es : List CEvent) : List TxFrame :=
  es.filterMap fun e => match e with
    | .frame f => some f
    | _ => none

@[simp] theorem framesOf_nil : framesOf [] = [] := rfl

@[simp] theorem framesOf_frame (f : TxFrame) (es : List CEvent) :
    framesOf (.frame f :: es) = f :: framesOf es := rfl

@[simp] theorem framesOf_timeout (es : List CEvent) : framesOf (.timeout :: es) = framesOf es := rfl

@[simp] theorem framesOf_cut (f : TxFrame) (n : Nat) (es : List CEvent) :
    framesOf (.cut f n :: es) = framesOf es := rfl

@[simp] theorem framesOf_append (es es' : List CEvent) :
    framesOf (es ++ es') = framesOf es ++ framesOf es' :=
  List.filterMap_append

/-- Answers that begin with bytes of a frame: all of them, or the first `n` and then nothing or
a time-out. -/
theorem answers_cases (bs : List UInt8) {more : List UInt8} {vals : List (Option UInt8)}
    (h : vals.reduceOption <+: bs ++ more) :
    bs.map some <+: vals ∨
      ∃ n < bs.length, vals = (bs.take n).map some ∨
        ∃ rest, vals = (bs.take n).map some ++ none :: rest := by
  induction bs generalizing vals with
  | nil => exact Or.inl (List.nil_prefix)
  | cons x bs ih =>
    match vals, h with
    | [], _ => exact Or.inr ⟨0, by simp, Or.inl rfl⟩
    | none :: rest, _ => exact Or.inr ⟨0, by simp, Or.inr ⟨rest, rfl⟩⟩
    | some y :: rest, h =>
      rw [List.reduceOption_cons_of_some, List.cons_append, List.cons_prefix_cons] at h
      obtain ⟨rfl, hrest⟩ := h
      rcases ih hrest with hall | ⟨n, hn, heq | ⟨rest', heq⟩⟩
      · exact Or.inl (List.cons_prefix_cons.mpr ⟨rfl, hall⟩)
      · exact Or.inr ⟨n + 1, by simpa using hn, Or.inl (by rw [heq]; rfl)⟩
      · exact Or.inr ⟨n + 1, by simpa using hn, Or.inr ⟨rest', by rw [heq]; rfl⟩⟩

/-- The events cover the answers, or the last of them is a cut inside the answers. -/
def Cover (es : List CEvent) (vals : List (Option UInt8)) : Prop :=
  vals <+: es.flatMap CEvent.vals ∨
    es.flatMap CEvent.vals <+: vals ∧ ∃ es₀ f n, es = es₀ ++ [.cut f n]

theorem Cover.cons {es : List CEvent} {vals : List (Option UInt8)} (h : Cover es vals)
    (e : CEvent) : Cover (e :: es) (e.vals ++ vals) := by
  rcases h with h | ⟨h, es₀, f, n, rfl⟩
  · exact Or.inl ((List.prefix_append_right_inj _).mpr h)
  · exact Or.inr ⟨(List.prefix_append_right_inj _).mpr h, e :: es₀, f, n, rfl⟩

/-- Answers with the bytes of well-formed frames are covered by valid events. -/
theorem exists_cover {fs : List TxFrame} (hfs : ∀ f ∈ fs, f.WellFormed)
    {vals : List (Option UInt8)} (h : vals.reduceOption <+: fs.flatMap TxFrame.bytes) :
    ∃ es, (∀ e ∈ es, e.Valid) ∧ framesOf es <+: fs ∧ Cover es vals := by
  induction hlen : vals.length using Nat.strong_induction_on generalizing vals fs with
  | _ len ih =>
    rcases vals with _ | ⟨_ | x, rest⟩
    · exact ⟨[], by simp, List.nil_prefix, Or.inl List.nil_prefix⟩
    · -- a wait without a byte
      rw [List.reduceOption_cons_of_none] at h
      obtain ⟨es, hval, hpre, hcov⟩ := ih rest.length (by simp [← hlen]) hfs h rfl
      refine ⟨.timeout :: es, ?_, hpre, hcov.cons .timeout⟩
      simpa [CEvent.Valid] using hval
    · rcases fs with _ | ⟨f, fs⟩
      · simp at h
      · have hf : f.WellFormed := hfs f List.mem_cons_self
        rw [List.flatMap_cons] at h
        rcases answers_cases f.bytes h with ⟨rest', hall⟩ | ⟨n, hn, heq | ⟨rest', heq⟩⟩
        · have hlen' : f.bytes.length + rest'.length = len := by
            rw [← hlen, ← hall]
            simp
          have hpos := List.length_pos_iff.mpr (TxFrame.bytes_ne_nil hf)
          have hsome : (f.bytes.map some).reduceOption = f.bytes := by
            simp [List.reduceOption, List.filterMap_map]
          rw [← hall, List.reduceOption_append, hsome, List.prefix_append_right_inj] at h
          have hfs' : ∀ g ∈ fs, g.WellFormed := fun g hg => hfs g (List.mem_cons_of_mem _ hg)
          obtain ⟨es, hval, hpre, hcov⟩ := ih rest'.length (by omega) hfs' h rfl
          refine ⟨.frame f :: es, ?_, ?_, ?_⟩
          · simpa [CEvent.Valid, hf] using hval
          · simpa using hpre
          · rw [← hall]
            exact hcov.cons (.frame f)
        · refine ⟨[.frame f], by simpa [CEvent.Valid] using hf, by simp, Or.inl ?_⟩
          rw [heq]
          simpa [CEvent.vals] using List.take_prefix n (f.bytes.map some)
        · refine ⟨[.cut f n], ?_, by simp, Or.inr ⟨?_, [], f, n, rfl⟩⟩
          · have hpos : 0 < n := by
              rcases Nat.eq_zero_or_pos n with rfl | hpos
              · simp at heq
              · exact hpos
            simpa [CEvent.Valid] using ⟨hf, hpos, hn⟩
          · rw [heq]
            exact ⟨rest', by simp [CEvent.vals]⟩

/-! ## Events as paths -/

namespace CState

theorem failure_finished (j : JoinCall) (e : ClientError) (st : CState) :
    ∃ r, (st.failure j e).2 = .finished r := by
  cases st <;> exact ⟨_, rfl⟩

end CState

namespace JoinCall

variable {j : JoinCall} {st : CState}

/-- A valid event is accepted in every wait. -/
theorem step_of_valid (hst : ∀ r, st ≠ .finished r) {e : CEvent} (he : e.Valid) :
    j.machine.step st e = some (st.react j e) :=
  CState.step_eq_some.mpr ⟨hst, he, rfl⟩

/-- The machine accepts valid events until the call ends. -/
theorem exists_path {es : List CEvent} (hes : ∀ e ∈ es, e.Valid) (st : CState) :
    ∃ done todo l ps st', es = done ++ todo ∧ j.machine.Path st done l ps st' ∧
      (todo = [] ∨ ∃ r, st' = .finished r) := by
  induction es generalizing st with
  | nil => exact ⟨[], [], [], [], st, rfl, .nil st, Or.inl rfl⟩
  | cons e es ih =>
    by_cases hst : ∃ r, st = .finished r
    · exact ⟨[], e :: es, [], [], st, rfl, .nil st, Or.inr hst⟩
    · have hstep := step_of_valid (j := j) (fun r hr => hst ⟨r, hr⟩) (hes e List.mem_cons_self)
      obtain ⟨done, todo, l, ps, st', rfl, hpath, hend⟩ :=
        ih (fun e' he' => hes e' (List.mem_cons_of_mem _ he')) (st.react j e).2
      exact ⟨e :: done, todo, _, _, st', rfl, .cons hstep hpath, hend⟩

/-- The machine accepts nothing after the end of the call. -/
theorem path_finished {r : JoinResult} {es : List CEvent} {l : List (AckWaitKind × Option UInt8)}
    {ps : List Packet} {st' : CState} (h : j.machine.Path (.finished r) es l ps st') :
    es = [] ∧ ps = [] ∧ st' = .finished r := by
  cases h with
  | nil => exact ⟨rfl, rfl, rfl⟩
  | cons hstep _ => cases hstep

/-- A frame that is cut off ends the call. -/
theorem finished_of_cut {es : List CEvent} {f : TxFrame} {n : Nat}
    {l : List (AckWaitKind × Option UInt8)} {ps : List Packet} {st' : CState}
    (h : j.machine.Path st (es ++ [.cut f n]) l ps st') : ∃ r, st' = .finished r := by
  obtain ⟨_, _, u, _, _, -, hlast, -, -⟩ := h.split
  cases hlast with
  | cons hstep rest =>
    cases rest
    obtain ⟨-, -, hr⟩ := CState.step_eq_some.mp hstep
    obtain ⟨r, hfin⟩ := CState.failure_finished j ResultDecoder.partialFrame u
    have hst : (u.failure j ResultDecoder.partialFrame).2 = _ := congrArg Prod.snd hr
    exact ⟨r, hst.symm.trans hfin⟩

theorem runs_ret {α : Type} {a : α} {ins : List (AckWaitKind × Option UInt8)} {outs : List Packet}
    {q : CProc α} (h : Runs (.ret a) ins outs q) : ins = [] ∧ outs = [] ∧ q = .ret a := by
  cases h with
  | refl => exact ⟨rfl, rfl, rfl⟩
  | recv hv _ => cases hv
  | poll hv _ => cases hv
  | send hv _ => cases hv
  | tau hv _ => cases hv

section Runs

variable {p q : CProc JoinResult} {ins : List (AckWaitKind × Option UInt8)} {outs : List Packet}
  {fs : List TxFrame}

/-- **Every run on well-formed frames stands between two events of the machine.** -/
theorem run_between (hp : j.Rep st p) (hrun : Runs p ins outs q)
    (hfs : ∀ f ∈ fs, f.WellFormed) (hins : Side.reads ins <+: fs.flatMap TxFrame.bytes) :
    ∃ done todo l ps u, j.machine.Path st done l ps u ∧ framesOf (done ++ todo) <+: fs ∧
      (∀ e ∈ done ++ todo, e.Valid) ∧ j.machine.At u todo l ps ins outs q := by
  have hreads : (ins.map Prod.snd).reduceOption = Side.reads ins := by
    simp [List.reduceOption, Side.reads, List.filterMap_map]
  rw [← hreads] at hins
  obtain ⟨es, hval, hpre, hcov⟩ := exists_cover hfs hins
  obtain ⟨done, todo, l, ps, u, rfl, hpath, hend⟩ := exists_path (j := j) hval st
  -- if the call has ended the run is not longer than the path
  have hle : ins.map Prod.snd <+: done.flatMap CEvent.vals := by
    by_cases hfin : ∃ r, u = .finished r
    · obtain ⟨r, rfl⟩ := hfin
      obtain ⟨outs', q', hrun', -, hq'⟩ := hpath.runs hp
      obtain rfl := Rep.finished hq'
      have hcmp : l.map Prod.snd <+: ins.map Prod.snd ∨ ins.map Prod.snd <+: l.map Prod.snd := by
        rw [hpath.vals]
        have hdone : done.flatMap CEvent.vals <+: (done ++ todo).flatMap CEvent.vals := by
          rw [List.flatMap_append]
          exact List.prefix_append _ _
        rcases hcov with hcov | ⟨hcov, -⟩
        · exact List.prefix_or_prefix_of_prefix hdone hcov
        · exact Or.inl (hdone.trans hcov)
      have hvals : l.map Prod.snd = done.flatMap CEvent.vals := hpath.vals
      rcases hrun'.linear hrun hcmp with ⟨ins', outs'', hcont, rfl, -⟩ | ⟨ins', outs'', -, hi, -⟩
      · obtain ⟨rfl, -, -⟩ := runs_ret hcont
        rw [List.append_nil, hvals]
      · rw [← hvals, hi, List.map_append]
        exact List.prefix_append _ _
    · obtain rfl : todo = [] := by
        rcases hend with h | h
        · exact h
        · exact absurd h hfin
      rw [List.append_nil] at hcov
      rcases hcov with hcov | ⟨-, es₀, f, n, rfl⟩
      · exact hcov
      · exact absurd (finished_of_cut hpath) hfin
  obtain ⟨done₁, todo₁, l₁, ps₁, u₁, rfl, hpath₁, hat⟩ := hpath.between hp hrun hle
  refine ⟨done₁, todo₁, l₁, ps₁, u₁, hpath₁, ?_, ?_, hat⟩
  · rw [framesOf_append] at hpre
    exact (List.prefix_append _ _).trans hpre
  · exact fun e he => hval e (List.mem_append_left _ he)

/-- A run that has ended has taken all its reads as events. -/
theorem run_ended {r : JoinResult} (hp : j.Rep st p) (hrun : Runs p ins outs (.ret r))
    (hfs : ∀ f ∈ fs, f.WellFormed) (hins : Side.reads ins <+: fs.flatMap TxFrame.bytes) :
    ∃ es, (∀ e ∈ es, e.Valid) ∧ framesOf es <+: fs ∧
      j.machine.Path st es ins outs (.finished r) := by
  obtain ⟨done, todo, l, ps, u, hpath, hpre, hval, hat⟩ := run_between hp hrun hfs hins
  have hval' : ∀ e ∈ done, e.Valid := fun e he => hval e (List.mem_append_left _ he)
  have hpre' : framesOf done <+: fs := by
    rw [framesOf_append] at hpre
    exact (List.prefix_append _ _).trans hpre
  have hend : ∀ {u}, j.Rep u (.ret r) → u = .finished r := by
    intro u hu
    generalize hq : (Proc.ret r : CProc JoinResult) = q at hu
    cases hu with
    | wait st hk => cases hq
    | ended => rw [Proc.ret.inj hq]
  cases hat with
  | sending hi hr hp' hos =>
    obtain ⟨-, rfl, rfl⟩ := runs_ret hr
    obtain rfl := hend hp'
    have hps : ps = outs := by simpa [machine] using hos
    subst hi hps
    exact ⟨done, hval', hpre', hpath⟩
  | @reading part p' e hi hp' hr hos hhead hpart hne =>
    by_cases hst : ∃ x, u = .finished x
    · obtain ⟨x, rfl⟩ := hst
      obtain rfl := Rep.finished hp'
      obtain ⟨rfl, -, hx⟩ := runs_ret hr
      have hps : ps = outs := by simpa [machine] using hos
      rw [List.append_nil] at hi
      obtain rfl := Proc.ret.inj hx
      subst hi hps
      exact ⟨done, hval', hpre', hpath⟩
    · -- a process that has ended has not read a proper part of an event
      have he : e.Valid := hval e (List.mem_append_right _ (List.mem_of_mem_head? hhead))
      have hstep := step_of_valid (j := j) (fun x hx => hst ⟨x, hx⟩) he
      obtain ⟨mid, _, _, hread, -, -, -⟩ := j.machine.sim hp' hstep
      have hcmp : part.map Prod.snd <+: (j.machine.label u e).map Prod.snd := hpart.map Prod.snd
      rcases hr.linear hread (Or.inl hcmp) with ⟨ins', _, hcont, hi', -⟩ | ⟨ins', _, -, hi', -⟩
      · obtain ⟨rfl, -, -⟩ := runs_ret hcont
        exact absurd (by simpa using hi'.symm) hne
      · have hlen := hpart.length_le
        rw [hi', List.length_append] at hlen
        obtain rfl : ins' = [] := List.eq_nil_of_length_eq_zero (by omega)
        exact absurd (by simpa using hi') hne

/-- Where a run of the call stands: it has taken the events `es`, and `ps` are the packets that
it sends after CONFIGURE and before it waits in `st`. -/
def Standing (j : JoinCall) (ins : List (AckWaitKind × Option UInt8)) (outs : List Packet)
    (q : CProc JoinResult) (es : List CEvent) (ps : List Packet) (st : CState) : Prop :=
  ∃ outs' todo l, outs = j.configurePacket :: outs' ∧ j.machine.Path .config es l ps st ∧
    j.machine.At st todo l ps ins outs' q

theorem flatMap_obs (outs : List Packet) : outs.flatMap j.machine.obs = outs := by
  simp [machine]

variable {es : List CEvent} {ps : List Packet}

theorem Standing.path (h : j.Standing ins outs q es ps st) :
    ∃ l, j.machine.Path .config es l ps st := by
  obtain ⟨outs', todo, l, -, hpath, -⟩ := h
  exact ⟨l, hpath⟩

theorem Standing.sent (h : j.Standing ins outs q es ps st) :
    ∃ outs', outs = j.configurePacket :: outs' ∧ outs' <+: ps := by
  obtain ⟨outs', todo, l, hout, -, hat⟩ := h
  have hle := hat.outs_le
  rw [flatMap_obs] at hle
  exact ⟨outs', hout, hle⟩

/-- **Every run of the call on well-formed frames stands somewhere**, once it has sent
CONFIGURE. -/
theorem exists_standing (hrun : Runs j.runHashJoin ins outs q) (hfs : ∀ f ∈ fs, f.WellFormed)
    (hins : Side.reads ins <+: fs.flatMap TxFrame.bytes) (hsent : outs ≠ []) :
    ∃ es ps st, j.Standing ins outs q es ps st ∧ framesOf es <+: fs := by
  obtain ⟨q₀, hstart, hq₀⟩ := j.runs_start
  rcases hstart.linear hrun (Or.inl List.nil_prefix) with
    ⟨ins', outs', hcont, hi, rfl⟩ | ⟨ins', outs', hcont, hi, ho⟩
  · obtain rfl : ins = ins' := hi
    obtain ⟨es, todo, l, ps, st, hpath, hpre, -, hat⟩ := run_between hq₀ hcont hfs hins
    rw [framesOf_append] at hpre
    exact ⟨es, ps, st, ⟨outs', todo, l, rfl, hpath, hat⟩, (List.prefix_append _ _).trans hpre⟩
  · -- the run has not gone beyond the first packet
    obtain ⟨rfl, rfl⟩ := List.append_eq_nil_iff.mp hi.symm
    obtain ⟨rfl, rfl⟩ : outs = [j.configurePacket] ∧ outs' = [] := by
      rcases outs with _ | ⟨o, outs⟩
      · exact absurd rfl hsent
      · rw [List.cons_append] at ho
        obtain ⟨rfl, hrest⟩ := List.cons.inj ho
        obtain ⟨rfl, rfl⟩ := List.append_eq_nil_iff.mp hrest.symm
        exact ⟨rfl, rfl⟩
    exact ⟨[], [], .config, ⟨[], [], [], rfl, .nil _, .sending rfl hcont hq₀ rfl⟩,
      List.nil_prefix⟩

end Runs

end JoinCall

end FpgaHashJoin
