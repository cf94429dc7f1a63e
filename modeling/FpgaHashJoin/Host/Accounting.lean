import FpgaHashJoin.Batching
import FpgaHashJoin.Host.Discipline

/-!
# The answers that the loops take

The loops of the client have no counter. Every answer after which a loop goes on retires a
frame, and every frame carries a row; so a loop takes at most as many answers as it has sent
frames, and it ends under every stream of answers.
-/

namespace FpgaHashJoin

open Process CreditWindow

namespace CState

/-- Both loops are over. -/
def past : CState → Bool
  | .config => false
  | .build _ => false
  | .probe _ _ => false
  | _ => true

variable (j : JoinCall)

theorem past_leave (r : Except ClientError JoinCall.Completed) : (j.leaveStep r).2.past = true := by
  match r with
  | .error _ => rfl
  | .ok (.reported _) => rfl
  | .ok (.inferred _) => rfl

theorem past_verify (results : List ResultPair) (a : StatusPayload) :
    (j.verifyStep results a).2.past = true := by
  unfold JoinCall.verifyStep
  split
  · exact past_leave j _
  · exact past_leave j _

theorem past_complete (results : List ResultPair) (a : StatusPayload) :
    (j.completeStep results a).2.past = true := by
  unfold JoinCall.completeStep
  split_ifs
  · exact past_leave j _
  · rfl
  · exact past_verify j _ _

theorem past_probeEnd (results : List ResultPair) (a : StatusPayload) :
    (j.probeEndStep results a).2.past = true := by
  unfold JoinCall.probeEndStep
  split
  · rfl
  · exact past_complete j _ _

theorem past_failure (e : ClientError) (st : CState) : (st.failure j e).2.past = true := by
  cases st with
  | reset _ _ => rfl
  | finished _ => rfl
  | _ => exact past_leave j _

theorem past_answer {st : CState} (h : st.past = true) (a : StatusPayload) :
    (st.answer j a).2.past = true := by
  cases st with
  | config => cases h
  | build _ => cases h
  | probe _ _ => cases h
  | probeEnd results => exact past_complete j _ _
  | final results =>
    change (j.finalStep results a).2.past = true
    unfold JoinCall.finalStep
    split
    · exact past_leave j _
    · exact past_verify j _ _
  | reset attempts results =>
    change (JoinCall.resetStep attempts results a).2.past = true
    unfold JoinCall.resetStep
    split_ifs <;> rfl
  | finished r => rfl

/-- The loops are not entered again. -/
theorem past_react {st : CState} (h : st.past = true) (e : CEvent) :
    (st.react j e).2.past = true := by
  cases e with
  | timeout => exact past_failure j _ st
  | cut f n => exact past_failure j _ st
  | frame f =>
    unfold react hear
    dsimp only
    cases j.heard st.kind f with
    | failure x => exact past_failure j x st
    | more pairs => cases st <;> exact h
    | answer a => exact past_answer j h a

theorem ne_config_of_past {st : CState} (h : st.past = true) : st ≠ .config := by
  rintro rfl
  cases h

/-- The head of the probe loop leads into it, with the window filled, or beyond it. -/
theorem enterProbe_cases (p : JoinCall.ProbeVars) :
    (j.enterProbe p).2 = .probe (j.filled j.outer p.win) p.results ∨
      (j.enterProbe p).2.past = true := by
  unfold JoinCall.enterProbe
  split
  · rw [CReaction.emit]
    split
    · exact Or.inr (past_leave j _)
    · exact Or.inl rfl
  · exact Or.inr (past_probeEnd j _ _)

/-- The head of the build loop leads into it, with the window filled, or to the head of the
probe loop, or beyond both. -/
theorem enterBuild_state_cases (v : Window) :
    (j.enterBuild v).2 = .build (j.filled j.inner v) ∨ j.enterBuild v = j.enterProbe {} ∨
      (j.enterBuild v).2.past = true := by
  unfold JoinCall.enterBuild
  split
  · rw [CReaction.emit]
    split
    · exact Or.inr (Or.inr (past_leave j _))
    · exact Or.inl rfl
  · exact Or.inr (Or.inl rfl)

theorem enterProbe_ne_config (p : JoinCall.ProbeVars) : (j.enterProbe p).2 ≠ .config := by
  rcases enterProbe_cases j p with h | h
  · rw [h]
    nofun
  · exact ne_config_of_past h

theorem enterBuild_ne_config (v : Window) : (j.enterBuild v).2 ≠ .config := by
  rcases enterBuild_state_cases j v with h | h | h
  · rw [h]
    nofun
  · rw [h]
    exact enterProbe_ne_config j _
  · exact ne_config_of_past h

/-- After an answer the client does not wait for the answer to CONFIGURE any more. -/
theorem answer_ne_config (st : CState) (a : StatusPayload) : (st.answer j a).2 ≠ .config := by
  by_cases hst : st.past = true
  · exact ne_config_of_past (past_answer j hst a)
  · cases st with
    | config => exact enterBuild_ne_config j _
    | build v =>
      change (j.buildStep v a).2 ≠ .config
      unfold JoinCall.buildStep
      dsimp only
      split
      · exact ne_config_of_past (past_leave j _)
      · exact enterBuild_ne_config j _
    | probe v results =>
      change (j.probeStep v results a).2 ≠ .config
      unfold JoinCall.probeStep
      dsimp only
      split_ifs
      · exact enterProbe_ne_config j _
      · exact ne_config_of_past (past_leave j _)
      · exact enterProbe_ne_config j _
    | _ => exact absurd rfl hst

end CState

namespace JoinCall

variable {j : JoinCall}

/-! ## Progress -/

/-- The first frames in flight are gone, and others may have been sent. -/
def Retires (v v' : Window) : Prop :=
  ∃ gone rest new, gone ≠ [] ∧ v.inflight = gone ++ rest ∧ v'.inflight = rest ++ new ∧
    v'.acked = v.acked + gone.sum

/-- An ACK that lets the loop go on retires a frame. -/
theorem retires_filled {v : Window} (hne : v.inflight ≠ []) (a : StatusPayload)
    (rows : List InputTuple)
    (hgo : ¬ ((applyCumulativeAck { v with credit := a.credit.toNat } a.rowsProcessed).1 = 0 ∧
      (applyCumulativeAck { v with credit := a.credit.toNat } a.rowsProcessed).2.inflight ≠ [])) :
    Retires v (j.filled rows
      (applyCumulativeAck { v with credit := a.credit.toNat } a.rowsProcessed).2) := by
  obtain ⟨gone, hsplit, hcount, hacked, -, -⟩ :=
    applyCumulativeAck_spec { v with credit := a.credit.toNat } a.rowsProcessed
  obtain ⟨new, hnew, -, -, hacked', -⟩ := Window.fill_spec j.batch rows.length
    (j.window - (applyCumulativeAck { v with credit := a.credit.toNat }
      a.rowsProcessed).2.inflight.length)
    (applyCumulativeAck { v with credit := a.credit.toNat } a.rowsProcessed).2
  refine ⟨gone, _, new, ?_, hsplit, hnew, hacked'.trans hacked⟩
  rintro rfl
  refine hgo ⟨hcount, ?_⟩
  rw [List.nil_append] at hsplit
  rw [← hsplit]
  exact hne

theorem retires_build {v v' : Window} (hne : v.inflight ≠ []) {a : StatusPayload}
    (h : (j.buildStep v a).2 = .build v') : Retires v v' := by
  unfold buildStep at h
  dsimp only at h
  split at h
  · cases h
  next hgo =>
    rcases CState.enterBuild_state_cases j
      (applyCumulativeAck { v with credit := a.credit.toNat } a.rowsProcessed).2 with hs | hs | hs
    · rw [hs] at h
      obtain rfl := CState.build.inj h
      exact retires_filled hne a j.inner hgo
    · rw [hs] at h
      rcases CState.enterProbe_cases j {} with hp | hp
      · rw [hp] at h
        cases h
      · rw [h] at hp
        cases hp
    · rw [h] at hs
      cases hs

theorem retires_probe {v v' : Window} (hne : v.inflight ≠ []) {results results' : List ResultPair}
    {a : StatusPayload} (h : (j.probeStep v results a).2 = .probe v' results') : Retires v v' := by
  unfold probeStep at h
  dsimp only at h
  split_ifs at h with hdone hgo
  · rw [j.enterProbe_done _ rfl] at h
    have hpast := CState.past_probeEnd j results a
    rw [h] at hpast
    cases hpast
  · cases h
  · rcases CState.enterProbe_cases j
      ⟨(applyCumulativeAck { v with credit := a.credit.toNat } a.rowsProcessed).2, results, a,
        false⟩ with hs | hs
    · rw [hs] at h
      obtain ⟨rfl, -⟩ := CState.probe.inj h
      exact retires_filled hne a j.outer hgo
    · rw [h] at hs
      cases hs

/-! ## The number of answers -/

/-- An ACK or STATUS of the session. -/
def Answers (j : JoinCall) (e : CEvent) : Prop :=
  ∃ a : StatusPayload, a.sessionId = j.activeSessionId ∧ (e = .frame (.ack a) ∨ e = .frame (.status a))

theorem Answers.heard {e : CEvent} (h : j.Answers e) (st : CState) :
    ∃ a, st.ack? j e = some a ∧ st.react j e = st.answer j a := by
  obtain ⟨a, ha, rfl | rfl⟩ := h
  · have hheard : j.heard st.kind (.ack a) = .answer a := if_neg fun hne => hne.2 ha
    refine ⟨a, ?_, ?_⟩
    · simp [CState.ack?, hheard]
    · simp [CState.react, hheard, CState.hear]
  · have hheard : j.heard st.kind (.status a) = .answer a := if_neg fun hne => hne.2 ha
    refine ⟨a, ?_, ?_⟩
    · simp [CState.ack?, hheard]
    · simp [CState.react, hheard, CState.hear]

variable {st st' : CState} {es : List CEvent} {l : List (AckWaitKind × Option UInt8)}
  {ps : List Packet}

theorem past_path (hpath : j.machine.Path st es l ps st') (h : st.past = true) :
    st'.past = true := by
  induction hpath with
  | nil => exact h
  | @cons st st₁ st' e es l os os' hstep rest ih =>
    obtain ⟨-, -, hr⟩ := CState.step_eq_some.mp hstep
    have hsnd : (st.react j e).2 = st₁ := congrArg Prod.snd hr
    rw [← hsnd] at ih
    exact ih (CState.past_react j h e)

/-- As long as the loops are not over, every answer is taken by one of them, apart from the
answer to CONFIGURE. -/
theorem length_le_acks (hpath : j.machine.Path st es l ps st') (hes : ∀ e ∈ es, j.Answers e)
    (h : st'.past = false) :
    es.length ≤ (if st = .config then 1 else 0) + (j.acksIn CState.inBuild st es).length +
      (j.acksIn CState.inProbe st es).length := by
  induction hpath with
  | nil => simp
  | @cons st st₁ st' e es l os os' hstep rest ih =>
    obtain ⟨a, hack, hreact⟩ := (hes e List.mem_cons_self).heard st
    obtain ⟨-, -, hr⟩ := CState.step_eq_some.mp hstep
    have hsnd : (st.react j e).2 = st₁ := congrArg Prod.snd hr
    have hnext : st₁ ≠ .config := by
      rw [← hsnd, hreact]
      exact CState.answer_ne_config j st a
    have hih := ih (fun e' he' => hes e' (List.mem_cons_of_mem _ he')) h
    rw [if_neg hnext, Nat.zero_add] at hih
    have hst : st.past = false := by
      by_contra hpast
      have hp := past_path (.cons hstep rest) (by simpa using hpast)
      rw [h] at hp
      cases hp
    simp only [acksIn, hack, hsnd, List.length_append, List.length_cons]
    cases st with
    | config => simp [CState.inBuild, CState.inProbe]; omega
    | build v => simp [CState.inBuild, CState.inProbe]; omega
    | probe v results => simp [CState.inBuild, CState.inProbe]; omega
    | _ => cases hst

/-- There are at most as many frames as rows. -/
theorem InOrder.length_le {s : Sent} (h : InOrder j s) :
    s.inners.length ≤ j.inner.length ∧ s.outers.length ≤ j.outer.length := by
  constructor
  · refine (Batching.length_le_flatten s.inners fun c hc => ?_).trans h.inner.length_le
    exact (h.size c (List.mem_append_left _ hc)).1
  · refine (Batching.length_le_flatten s.outers fun c hc => ?_).trans h.outer.length_le
    exact (h.size c (List.mem_append_right _ hc)).1

/-- The variables of a loop that has taken the answers `acks`. -/
structure Accounted (v : Window) (acks : List StatusPayload) : Prop where
  balance : v.acked + v.inflight.sum = v.sent
  seen : v.acked = 0 ∨ ∃ a ∈ acks, v.acked ≤ a.rowsProcessed.toNat

/-- What the accounting of a call says at the point where the call has taken the events `es`,
sends `ps` and waits in `st`. -/
structure Accounting (j : JoinCall) (es : List CEvent) (ps : List Packet) (st : CState) : Prop where
  /-- In a loop, acknowledged rows and rows in flight are the rows sent, and the acknowledged
  rows do not exceed the largest count that the loop has been told. -/
  build : ∀ v, st = .build v → Accounted v (j.acksIn CState.inBuild .config es)
  probe : ∀ v results, st = .probe v results → Accounted v (j.acksIn CState.inProbe .config es)
  /-- An answer after which the loop goes on retires a frame. -/
  buildGoesOn : ∀ v v' a, st = .build v → (st.answer j a).2 = .build v' → Retires v v'
  probeGoesOn : ∀ v v' results results' a, st = .probe v results →
    (st.answer j a).2 = .probe v' results' → Retires v v'
  /-- The loops have taken at most as many answers as they have sent frames. -/
  waits : ∃ s : Sent, s.frames j = j.configurePacket ++ ps.flatten ∧
    (j.acksIn CState.inBuild .config es).length ≤ s.inners.length ∧
    (j.acksIn CState.inProbe .config es).length ≤ s.outers.length
  /-- A stream of answers leads the call out of both loops. -/
  ends : (∀ e ∈ es, j.Answers e) → 1 + j.inner.length + j.outer.length < es.length → st.past = true

theorem accounting_of_path (hpath : j.machine.Path .config es l ps st) : Accounting j es ps st := by
  obtain ⟨s, hframes, hof⟩ := exists_sent hpath
  obtain ⟨hnb, hnp⟩ := hof.paid
  obtain ⟨hinner, houter⟩ := hof.inOrder.length_le
  refine ⟨?_, ?_, ?_, ?_, ⟨s, hframes, hnb, hnp⟩, ?_⟩
  · rintro v rfl
    exact ⟨hof.1.loop.batches.balance, hof.1.loop.seen⟩
  · rintro v results rfl
    exact ⟨hof.2.1.loop.batches.balance, hof.2.1.loop.seen⟩
  · rintro v v' a rfl h
    exact retires_build hof.2.1 h
  · rintro v v' results results' a rfl h
    exact retires_probe hof.2.2 h
  · intro hes hlong
    by_contra hpast
    have hle := length_le_acks hpath hes (by simpa using hpast)
    rw [if_pos rfl] at hle
    omega

/-- **The accounting of the acknowledgements.** Whatever well-formed frames arrive and whatever
waits time out, the variables of both loops account for all rows that have been sent; an answer
after which a loop goes on retires a frame; a loop takes at most as many answers as it has sent
frames, and a long enough stream of answers leads out of both loops. -/
theorem ack_accounting {fs : List TxFrame} {ins : List (AckWaitKind × Option UInt8)}
    {outs : List Packet} {q : CProc JoinResult} (hrun : Runs j.runHashJoin ins outs q)
    (hfs : ∀ f ∈ fs, f.WellFormed) (hins : Side.reads ins <+: fs.flatMap TxFrame.bytes)
    (hsent : outs ≠ []) :
    ∃ es ps st, j.Standing ins outs q es ps st ∧ Accounting j es ps st := by
  obtain ⟨es, ps, st, hstand, -⟩ := exists_standing hrun hfs hins hsent
  obtain ⟨l, hpath⟩ := hstand.path
  exact ⟨es, ps, st, hstand, accounting_of_path hpath⟩

/-- A call that has taken two answers in the build loop and one in the probe loop. -/
theorem ack_accounting_batchedCall :
    ∃ ins q, Runs batchedCall.runHashJoin ins (batchedCall.configurePacket :: batchedPackets) q ∧
      batchedCall.Rep batchedWait q ∧ Side.reads ins = batchedAnswers.flatMap TxFrame.bytes ∧
      ∃ es ps st, batchedCall.Standing ins (batchedCall.configurePacket :: batchedPackets) q es ps st ∧
        Accounting batchedCall es ps st := by
  obtain ⟨ins, q, hrun, hq, hreads⟩ := batchedCall_runs
  exact ⟨ins, q, hrun, hq, hreads,
    ack_accounting hrun batchedAnswers_wellFormed (by rw [hreads]) (by simp)⟩

end JoinCall

end FpgaHashJoin
