import FpgaHashJoin.Host.Accounting

/-!
# Which rows a successful call has sent

A call that returns normally has sent all inner rows. It has also sent all outer rows, unless a
wait of the probe loop is answered with the phase DONE while rows remain: this ends the loop,
and nothing afterwards looks at the number of rows that have been sent.
-/

namespace FpgaHashJoin

open Process CreditWindow

/-- The rows of the DATA frames of one kind. -/
def rowsOfFrames (msg : DataMsg) (fs : List HostFrame) : List InputTuple :=
  fs.flatMap fun f => match f with
    | .data m _ ts => if m = msg then ts else []
    | _ => []

@[simp] theorem rowsOfFrames_nil (msg : DataMsg) : rowsOfFrames msg [] = [] := rfl

@[simp] theorem rowsOfFrames_append (msg : DataMsg) (fs gs : List HostFrame) :
    rowsOfFrames msg (fs ++ gs) = rowsOfFrames msg fs ++ rowsOfFrames msg gs :=
  List.flatMap_append

@[simp] theorem rowsOfFrames_configure (msg : DataMsg) (p : ConfigurePayload) (fs : List HostFrame) :
    rowsOfFrames msg (.configure p :: fs) = rowsOfFrames msg fs := rfl

@[simp] theorem rowsOfFrames_reset (msg : DataMsg) (fs : List HostFrame) :
    rowsOfFrames msg (.reset :: fs) = rowsOfFrames msg fs := rfl

@[simp] theorem rowsOfFrames_data (msg m : DataMsg) (w : KeyType) (ts : List InputTuple)
    (fs : List HostFrame) :
    rowsOfFrames msg (.data m w ts :: fs) =
      (if m = msg then ts else []) ++ rowsOfFrames msg fs := rfl

theorem rowsOfFrames_map (msg m : DataMsg) (w : KeyType) (cs : List (List InputTuple)) :
    rowsOfFrames msg (cs.map (.data m w)) = if m = msg then cs.flatten else [] := by
  induction cs with
  | nil => simp
  | cons c cs ih =>
    rw [List.map_cons, rowsOfFrames_data, ih]
    split <;> simp

theorem rowsOfFrames_replicate_reset (msg : DataMsg) (n : Nat) :
    rowsOfFrames msg (List.replicate n .reset) = [] := by
  induction n with
  | zero => rfl
  | succ n ih => exact ih

namespace JoinCall

variable {j : JoinCall}

theorem rowsOfFrames_sent (msg : DataMsg) (s : Sent) :
    rowsOfFrames msg (s.frames j) = if msg = .inner then s.inners.flatten else s.outers.flatten := by
  have hmarker : rowsOfFrames msg
      (if s.marker then [HostFrame.data .outer j.config.keyType []] else []) = [] := by
    split <;> simp
  unfold Sent.frames
  simp only [rowsOfFrames_configure, rowsOfFrames_append, rowsOfFrames_map,
    rowsOfFrames_replicate_reset, hmarker, List.append_nil]
  cases msg <;> simp

/-- The packets carry no rows. -/
def NoRows (ps : List Packet) : Prop := ∀ msg, rowsOfFrames msg ps.flatten = []

theorem NoRows.nil : NoRows [] := fun _ => rfl

theorem noRows_leave (r : Except ClientError Completed) : NoRows (j.leaveStep r).1 := by
  intro msg
  have hclean : rowsOfFrames msg j.cleanupPackets.flatten = [] := by
    unfold cleanupPackets
    split <;> rfl
  match r with
  | .error _ => exact hclean
  | .ok (.reported _) => exact hclean
  | .ok (.inferred _) => rfl

theorem noRows_verify (results : List ResultPair) (a : StatusPayload) :
    NoRows (j.verifyStep results a).1 := by
  unfold verifyStep
  split
  · exact noRows_leave _
  · exact noRows_leave _

theorem noRows_complete (results : List ResultPair) (a : StatusPayload) :
    NoRows (j.completeStep results a).1 := by
  unfold completeStep
  split_ifs
  · exact noRows_leave _
  · exact NoRows.nil
  · exact noRows_verify _ _

theorem noRows_probeEnd (results : List ResultPair) (a : StatusPayload) :
    NoRows (j.probeEndStep results a).1 := by
  unfold probeEndStep
  split
  · intro msg
    simp
  · exact noRows_complete _ _

theorem noRows_failure (e : ClientError) (st : CState) : NoRows (st.failure j e).1 := by
  cases st with
  | reset _ _ => exact NoRows.nil
  | finished _ => exact NoRows.nil
  | _ => exact noRows_leave _

theorem noRows_react {st : CState} (h : st.past = true) (e : CEvent) : NoRows (st.react j e).1 := by
  cases e with
  | timeout => exact noRows_failure _ st
  | cut f n => exact noRows_failure _ st
  | frame f =>
    unfold CState.react CState.hear
    dsimp only
    cases j.heard st.kind f with
    | failure x => exact noRows_failure x st
    | more pairs => exact NoRows.nil
    | answer a =>
      cases st with
      | config => cases h
      | build _ => cases h
      | probe _ _ => cases h
      | probeEnd results => exact noRows_complete _ _
      | final results =>
        change NoRows (j.finalStep results a).1
        unfold finalStep
        split
        · exact noRows_leave _
        · exact noRows_verify _ _
      | reset attempts results =>
        change NoRows (resetStep attempts results a).1
        unfold resetStep
        split_ifs <;> exact NoRows.nil
      | finished r => exact NoRows.nil

section Paths

variable {st st' : CState} {es : List CEvent} {l : List (AckWaitKind × Option UInt8)}
  {ps : List Packet}

/-- After the loops no rows are sent. -/
theorem noRows_path (hpath : j.machine.Path st es l ps st') (h : st.past = true) : NoRows ps := by
  induction hpath with
  | nil => exact NoRows.nil
  | @cons st st₁ st' e es l os os' hstep rest ih =>
    obtain ⟨-, -, hr⟩ := CState.step_eq_some.mp hstep
    have hnext : st₁.past = true := by
      have hpast := CState.past_react j h e
      rw [hr] at hpast
      exact hpast
    have hfirst := noRows_react (j := j) h e
    rw [hr] at hfirst
    intro msg
    rw [List.flatten_append, rowsOfFrames_append, ih hnext msg, List.append_nil]
    exact hfirst msg

/-- Where a call leaves the loops. -/
theorem exists_leaving (hpath : j.machine.Path st es l ps st') (h : st.past = false)
    (h' : st'.past = true) :
    ∃ es₁ e es₂ l₁ ps₁ st₁ l₂ ps₂, es = es₁ ++ e :: es₂ ∧ j.machine.Path st es₁ l₁ ps₁ st₁ ∧
      st₁.past = false ∧ (st₁.react j e).2.past = true ∧
      j.machine.Path (st₁.react j e).2 es₂ l₂ ps₂ st' ∧ ps = ps₁ ++ (st₁.react j e).1 ++ ps₂ := by
  induction hpath with
  | nil =>
    rw [h] at h'
    cases h'
  | @cons st st₁ st' e es l os os' hstep rest ih =>
    obtain ⟨-, -, hr⟩ := CState.step_eq_some.mp hstep
    by_cases hst₁ : st₁.past = true
    · refine ⟨[], e, es, [], [], st, l, os', rfl, .nil st, h, ?_, ?_, ?_⟩
      · rw [hr]
        exact hst₁
      · rw [hr]
        exact rest
      · rw [hr]
        rfl
    · obtain ⟨es₁, e', es₂, l₁, ps₁, st₂, l₂, ps₂, rfl, hpath₁, hst₂, hnext, hpath₂, rfl⟩ :=
        ih (by simpa using hst₁) h'
      exact ⟨e :: es₁, e', es₂, _, _, st₂, l₂, ps₂, rfl, .cons hstep hpath₁, hst₂, hnext, hpath₂,
        by simp⟩

end Paths

/-! ## Leaving the loops without an error -/

/-- The call has not failed. -/
def Unfailed (st : CState) : Prop := ∀ x, st ≠ .finished (.error x)

theorem enterProbe_leaves {p : ProbeVars} (hpast : (j.enterProbe p).2.past = true)
    (hok : Unfailed (j.enterProbe p).2) :
    NoRows (j.enterProbe p).1 ∧ (j.outer.length ≤ p.win.sent ∨ p.probeReachedDone = true) := by
  by_cases hloop : (p.win.sent < j.outer.length ∨ p.win.inflight ≠ []) ∧ p.probeReachedDone = false
  · rw [enterProbe, if_pos hloop, CReaction.emit] at hpast hok
    by_cases hempty : (j.filled j.outer p.win).inflight = []
    · rw [if_pos hempty] at hok
      exact absurd rfl (hok _)
    · rw [if_neg hempty] at hpast
      cases hpast
  · rw [enterProbe, if_neg hloop]
    refine ⟨noRows_probeEnd _ _, ?_⟩
    by_contra hcon
    push Not at hcon
    exact hloop ⟨Or.inl hcon.1, by simpa using hcon.2⟩

theorem enterBuild_leaves {v : Window} (hpast : (j.enterBuild v).2.past = true)
    (hok : Unfailed (j.enterBuild v).2) :
    NoRows (j.enterBuild v).1 ∧ j.outer.length = 0 := by
  by_cases hloop : v.sent < j.inner.length ∨ v.inflight ≠ []
  · rw [enterBuild, if_pos hloop, CReaction.emit] at hpast hok
    by_cases hempty : (j.filled j.inner v).inflight = []
    · rw [if_pos hempty] at hok
      exact absurd rfl (hok _)
    · rw [if_neg hempty] at hpast
      cases hpast
  · rw [enterBuild, if_neg hloop] at hpast hok ⊢
    obtain ⟨hrows, hsent⟩ := enterProbe_leaves hpast hok
    refine ⟨hrows, ?_⟩
    rcases hsent with hsent | hdone
    · exact Nat.le_zero.mp hsent
    · cases hdone

/-- A wait of the probe loop is answered with the phase DONE, and outer rows remain. -/
def PrematureDone (j : JoinCall) (st : CState) (e : CEvent) : Prop :=
  ∃ v results f a, st = .probe v results ∧ e = .frame f ∧ j.heard .probe f = .answer a ∧
    a.phase = Phase.done.code ∧ v.sent < j.outer.length

/-- The rows that have been sent when a state of the loops is reached. -/
def outerSent : CState → Nat
  | .probe v _ => v.sent
  | _ => 0

theorem probe_leaves {v : Window} {results : List ResultPair} {a : StatusPayload}
    (hpast : (j.probeStep v results a).2.past = true) (hok : Unfailed (j.probeStep v results a).2) :
    NoRows (j.probeStep v results a).1 ∧
      (j.outer.length ≤ v.sent ∨ a.phase = Phase.done.code) := by
  obtain ⟨-, -, -, -, hsent, -⟩ :=
    applyCumulativeAck_spec { v with credit := a.credit.toNat } a.rowsProcessed
  unfold probeStep at hpast hok ⊢
  dsimp only at hpast hok ⊢
  by_cases hdone : a.phase = Phase.done.code
  · rw [if_pos hdone] at hpast hok ⊢
    exact ⟨(enterProbe_leaves hpast hok).1, Or.inr hdone⟩
  · rw [if_neg hdone] at hpast hok ⊢
    split_ifs at hpast hok ⊢ with hstuck
    · exact absurd rfl (hok _)
    · obtain ⟨hrows, hall | hreached⟩ := enterProbe_leaves hpast hok
      · refine ⟨hrows, Or.inl ?_⟩
        simpa [hsent] using hall
      · cases hreached

/-- Where a call leaves the loops without an error, it sends no rows any more; and it has sent
all outer rows, or the phase DONE has come too early. -/
theorem react_leaves {st : CState} (h : st.past = false) {e : CEvent}
    (hpast : (st.react j e).2.past = true) (hok : Unfailed (st.react j e).2) :
    NoRows (st.react j e).1 ∧ (j.outer.length ≤ outerSent st ∨ j.PrematureDone st e) := by
  have hfail : ∀ x, ¬ Unfailed (st.failure j x).2 := by
    intro x hx
    cases st with
    | config => exact hx x rfl
    | build _ => exact hx x rfl
    | probe _ _ => exact hx x rfl
    | _ => cases h
  cases e with
  | timeout => exact absurd hok (hfail _)
  | cut f n => exact absurd hok (hfail _)
  | frame f =>
    unfold CState.react at hpast hok ⊢
    dsimp only at hpast hok ⊢
    cases hheard : j.heard st.kind f with
    | failure x =>
      rw [hheard] at hok
      exact absurd hok (hfail x)
    | more pairs =>
      rw [hheard] at hpast
      cases st with
      | config => cases hpast
      | build _ => cases hpast
      | probe _ _ => cases hpast
      | _ => cases h
    | answer a =>
      rw [hheard] at hpast hok
      cases st with
      | config =>
        obtain ⟨hrows, hnone⟩ := enterBuild_leaves hpast hok
        exact ⟨hrows, Or.inl hnone.le⟩
      | build v =>
        have hbuild : (CState.build v).hear j (.answer a) = j.buildStep v a := rfl
        rw [hbuild] at hpast hok ⊢
        unfold buildStep at hpast hok ⊢
        dsimp only at hpast hok ⊢
        split_ifs at hpast hok ⊢ with hstuck
        · exact absurd rfl (hok _)
        · obtain ⟨hrows, hnone⟩ := enterBuild_leaves hpast hok
          exact ⟨hrows, Or.inl hnone.le⟩
      | probe v results =>
        obtain ⟨hrows, hall | hdone⟩ := probe_leaves hpast hok
        · exact ⟨hrows, Or.inl hall⟩
        · refine ⟨hrows, ?_⟩
          by_cases hall : j.outer.length ≤ v.sent
          · exact Or.inl hall
          · exact Or.inr ⟨v, results, f, a, rfl, rfl, hheard, hdone, by omega⟩
      | _ => cases h

/-- The phase DONE leaves the loop. -/
theorem PrematureDone.past {st : CState} {e : CEvent} (h : j.PrematureDone st e) :
    st.past = false ∧ (st.react j e).2.past = true := by
  obtain ⟨v, results, f, a, rfl, rfl, hheard, hdone, -⟩ := h
  refine ⟨rfl, ?_⟩
  have hreact : (CState.probe v results).react j (.frame f) = j.probeStep v results a := by
    simp [CState.react, CState.kind, hheard, CState.hear, CState.answer]
  rw [hreact]
  unfold probeStep
  dsimp only
  rw [if_pos hdone, enterProbe_done _ _ rfl]
  exact CState.past_probeEnd j _ _

theorem Sent.Of.outer_eq {s : Sent} {nb np : List StatusPayload} {st : CState}
    (h : s.Of j nb np st) (hst : st.past = false) :
    s.outers.flatten = j.outer.take (outerSent st) := by
  match st, h, hst with
  | .config, h, _ => simp [(h.1 {}).outers, outerSent]
  | .build _, h, _ => simp [h.1.outers, outerSent]
  | .probe _ _, h, _ => exact h.2.1.loop.batches.rows_eq

/-! ## Whole calls -/

/-- Among the events of a call, the phase DONE has come before all outer rows were sent. -/
def DoneBeforeAllSent (j : JoinCall) (es : List CEvent) : Prop :=
  ∃ es₁ e es₂ l ps st, es = es₁ ++ e :: es₂ ∧ j.machine.Path .config es₁ l ps st ∧
    j.PrematureDone st e

section Whole

variable {es es' : List CEvent} {e e' : CEvent} {l l' : List (AckWaitKind × Option UInt8)}
  {ps ps' : List Packet} {st st' : CState} {rest : List CEvent}

/-- What comes after the loops have been left is past them. -/
theorem past_of_append (hpath : j.machine.Path .config es l ps st)
    (hleave : (st.react j e).2.past = true)
    (hpath' : j.machine.Path .config (es ++ e :: rest) l' ps' st') : st'.past = true := by
  obtain ⟨_, _, u, _, _, hfirst, hlast, -, -⟩ := hpath'.split
  obtain ⟨-, -, rfl⟩ := hpath.unique hfirst
  cases hlast with
  | cons hstep hrest =>
    obtain ⟨-, -, hr⟩ := CState.step_eq_some.mp hstep
    rw [hr] at hleave
    exact past_path hrest hleave

/-- The loops are left once. -/
theorem leaving_unique (hpath : j.machine.Path .config es l ps st) (hst : st.past = false)
    (hleave : (st.react j e).2.past = true)
    (hpath' : j.machine.Path .config es' l' ps' st') (hst' : st'.past = false)
    (hleave' : (st'.react j e').2.past = true) {rest' : List CEvent}
    (heq : es ++ e :: rest = es' ++ e' :: rest') : st = st' ∧ e = e' := by
  -- the longer of the two lists of events contains the event that leaves the loops
  have hshort : ∀ mid, es' = es ++ mid → mid = [] := by
    rintro mid rfl
    rw [List.append_assoc, List.append_cancel_left_eq] at heq
    cases mid with
    | nil => rfl
    | cons x mid =>
      obtain ⟨rfl, -⟩ := List.cons.inj heq
      have hpast := past_of_append hpath hleave hpath'
      rw [hst'] at hpast
      cases hpast
  have hlong : ∀ mid, es = es' ++ mid → mid = [] := by
    rintro mid rfl
    rw [List.append_assoc, List.append_cancel_left_eq] at heq
    cases mid with
    | nil => rfl
    | cons x mid =>
      obtain ⟨rfl, -⟩ := List.cons.inj heq
      have hpast := past_of_append hpath' hleave' hpath
      rw [hst] at hpast
      cases hpast
  have hes : es = es' := by
    rcases List.append_eq_append_iff.mp heq with ⟨mid, hmid, -⟩ | ⟨mid, hmid, -⟩
    · rw [hmid, hshort mid hmid, List.append_nil]
    · rw [hmid, hlong mid hmid, List.append_nil]
  subst hes
  obtain ⟨-, -, rfl⟩ := hpath.unique hpath'
  rw [List.append_cancel_left_eq] at heq
  exact ⟨rfl, (List.cons.inj heq).1⟩

/-- The rows that a successful call has sent. -/
theorem rows_of_path {rs : List ResultPair}
    (hpath : j.machine.Path .config es l ps (.finished (.ok rs))) :
    rowsOfFrames .inner (j.configurePacket ++ ps.flatten) = j.inner ∧
      (rowsOfFrames .outer (j.configurePacket ++ ps.flatten) = j.outer ↔
        ¬ j.DoneBeforeAllSent es) := by
  obtain ⟨s, hframes, hof⟩ := exists_sent hpath
  refine ⟨?_, ?_⟩
  · rw [← hframes, rowsOfFrames_sent, if_pos rfl]
    exact hof.1.inner
  obtain ⟨es₁, e, es₂, l₁, ps₁, st₁, l₂, ps₂, rfl, hpath₁, hst₁, hleave, hpath₂, rfl⟩ :=
    exists_leaving hpath rfl rfl
  have hok : Unfailed (st₁.react j e).2 := by
    intro x hx
    rw [hx] at hpath₂
    obtain ⟨-, -, hfin⟩ := path_finished hpath₂
    cases hfin
  obtain ⟨hrows, hcases⟩ := react_leaves hst₁ hleave hok
  obtain ⟨s₁, hframes₁, hof₁⟩ := exists_sent hpath₁
  have hsent : rowsOfFrames .outer
      (j.configurePacket ++ (ps₁ ++ (st₁.react j e).1 ++ ps₂).flatten) =
        j.outer.take (outerSent st₁) := by
    rw [List.flatten_append, List.flatten_append, ← List.append_assoc, ← List.append_assoc,
      ← hframes₁, rowsOfFrames_append, rowsOfFrames_append, hrows, noRows_path hpath₂ hleave,
      rowsOfFrames_sent, if_neg nofun, List.append_nil, List.append_nil]
    exact hof₁.outer_eq hst₁
  rw [hsent, List.take_eq_self_iff]
  constructor
  · rintro hall ⟨es₁', e', es₂', l', ps', st', heq, hpath', hdone⟩
    obtain ⟨hst', hleave'⟩ := hdone.past
    obtain ⟨rfl, rfl⟩ := leaving_unique hpath₁ hst₁ hleave hpath' hst' hleave' heq
    obtain ⟨v, results, f, a, rfl, -, -, -, hless⟩ := hdone
    exact absurd hless (not_lt.mpr hall)
  · intro hnot
    rcases hcases with hall | hdone
    · exact hall
    · exact absurd ⟨es₁, e, es₂, l₁, ps₁, st₁, rfl, hpath₁, hdone⟩ hnot

end Whole

section Results

variable {fs : List TxFrame} {ins : List (AckWaitKind × Option UInt8)} {outs : List Packet}

/-- A call that has ended has sent CONFIGURE and has taken all its reads as events. -/
theorem call_ended {r : JoinResult} (hrun : Runs j.runHashJoin ins outs (.ret r))
    (hfs : ∀ f ∈ fs, f.WellFormed) (hins : Side.reads ins <+: fs.flatMap TxFrame.bytes) :
    ∃ es ps, outs = j.configurePacket :: ps ∧ framesOf es <+: fs ∧
      j.machine.Path .config es ins ps (.finished r) := by
  obtain ⟨q₀, hstart, hq₀⟩ := j.runs_start
  obtain ⟨ps, rfl, hcont⟩ : ∃ ps, outs = j.configurePacket :: ps ∧ Runs q₀ ins ps (.ret r) := by
    rcases hstart.linear hrun (Or.inl List.nil_prefix) with
      ⟨ins', ps, hcont, rfl, rfl⟩ | ⟨ins', ps, hcont, hi, ho⟩
    · exact ⟨ps, rfl, hcont⟩
    · obtain ⟨rfl, rfl, rfl⟩ := runs_ret hcont
      rw [List.append_nil] at hi ho
      subst hi ho
      exact ⟨[], rfl, .refl _⟩
  obtain ⟨es, -, hpre, hpath⟩ := run_ended hq₀ hcont hfs hins
  exact ⟨es, ps, rfl, hpre, hpath⟩

/-- **A call that returns normally has sent all inner rows.** Whatever well-formed frames have
arrived, it has sent all outer rows exactly if no wait of the probe loop has been answered with
the phase DONE while outer rows remained. -/
theorem rows_sent_iff {rs : List ResultPair} (hrun : Runs j.runHashJoin ins outs (.ret (.ok rs)))
    (hfs : ∀ f ∈ fs, f.WellFormed) (hins : Side.reads ins <+: fs.flatMap TxFrame.bytes) :
    ∃ es ps, outs = j.configurePacket :: ps ∧ framesOf es <+: fs ∧
      j.machine.Path .config es ins ps (.finished (.ok rs)) ∧
      rowsOfFrames .inner outs.flatten = j.inner ∧
      (rowsOfFrames .outer outs.flatten = j.outer ↔ ¬ j.DoneBeforeAllSent es) := by
  obtain ⟨es, ps, rfl, hpre, hpath⟩ := call_ended hrun hfs hins
  exact ⟨es, ps, rfl, hpre, hpath, rows_of_path hpath⟩

/-- A call without inner rows that sends its two outer rows one by one. -/
def twoRowCall : JoinCall :=
  (FpgaClient.new { maxBatchTuples := 1, ackWindowFrames := 1 }).call 0 {} [] [(1, ⟨0, 1⟩), (2, ⟨0, 2⟩)]

/-- CONFIGURE is acknowledged, and the first outer row is answered with DONE. -/
def earlyDone : List TxFrame :=
  [.ack { sessionId := twoRowCall.activeSessionId, phase := Phase.building.code, credit := 512 },
    .status { sessionId := twoRowCall.activeSessionId, phase := Phase.done.code }]

/-- What the client reads then. -/
def earlyDoneReads : List (AckWaitKind × Option UInt8) :=
  (earlyDone.zip [.config, .probe]).flatMap fun x => tagged x.2 x.1.bytes

theorem reads_earlyDone : Side.reads earlyDoneReads = earlyDone.flatMap TxFrame.bytes := by
  decide +kernel

theorem earlyDone_wellFormed : ∀ f ∈ earlyDone, f.WellFormed := by
  decide

theorem path_earlyDone :
    twoRowCall.machine.Path .config (earlyDone.map .frame) earlyDoneReads
      [[.data .outer .int32 [(1, ⟨0, 1⟩)]]] (.finished (.ok [])) := by
  have hconfig : twoRowCall.machine.step .config
      (.frame (.ack { sessionId := twoRowCall.activeSessionId
                      phase := Phase.building.code, credit := 512 })) =
        some ([[.data .outer .int32 [(1, ⟨0, 1⟩)]]],
          .probe { sent := 1, credit := 511, inflight := [1] } []) := by
    decide +kernel
  have hdone : twoRowCall.machine.step (.probe { sent := 1, credit := 511, inflight := [1] } [])
      (.frame (.status { sessionId := twoRowCall.activeSessionId, phase := Phase.done.code })) =
        some ([], .finished (.ok [])) := by
    decide +kernel
  exact .cons hconfig (.single hdone)

theorem runs_earlyDone :
    Runs twoRowCall.runHashJoin earlyDoneReads
      [twoRowCall.configurePacket, [.data .outer .int32 [(1, ⟨0, 1⟩)]]] (.ret (.ok [])) :=
  returns_of_path path_earlyDone

/-- The call returns normally and has sent one of its two outer rows. -/
theorem done_after_first_row :
    ∃ (fs : List TxFrame) (ins : List (AckWaitKind × Option UInt8)) (outs : List Packet),
      (∀ f ∈ fs, f.WellFormed) ∧ Side.reads ins <+: fs.flatMap TxFrame.bytes ∧
      Runs twoRowCall.runHashJoin ins outs (.ret (.ok [])) ∧
      rowsOfFrames .outer outs.flatten ≠ twoRowCall.outer := by
  refine ⟨earlyDone, earlyDoneReads, _, earlyDone_wellFormed, ?_, runs_earlyDone, ?_⟩
  · rw [reads_earlyDone]
  · decide

theorem rows_sent_iff_twoRowCall :
    ∃ es ps, [twoRowCall.configurePacket, [.data .outer .int32 [(1, ⟨0, 1⟩)]]] =
        twoRowCall.configurePacket :: ps ∧
      framesOf es <+: earlyDone ∧
      twoRowCall.machine.Path .config es earlyDoneReads ps (.finished (.ok [])) ∧
      (rowsOfFrames .outer [twoRowCall.configurePacket,
        [.data .outer .int32 [(1, ⟨0, 1⟩)]]].flatten = twoRowCall.outer ↔
          ¬ twoRowCall.DoneBeforeAllSent es) := by
  obtain ⟨es, ps, houts, hpre, hpath, -, hiff⟩ :=
    rows_sent_iff runs_earlyDone earlyDone_wellFormed (by rw [reads_earlyDone])
  exact ⟨es, ps, houts, hpre, hpath, hiff⟩

end Results

end JoinCall

end FpgaHashJoin
