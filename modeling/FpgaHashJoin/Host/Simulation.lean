import FpgaHashJoin.Host.Protocol

/-!
# The client follows its protocol machine

`Rep st p` says that the process `p` is the client in the wait `st`. The parts of
`run_hash_join` are followed from the end of the call to its beginning, since the end of each
part is the beginning of the next one: `Goes p r` says that `p` sends the packets of the
reaction `r` and is then in its state.
-/

namespace FpgaHashJoin

open Process CreditWindow

/-- What `run_hash_join` returns or throws. -/
abbrev JoinResult := Except ClientError (List ResultPair)

section Loops

variable {σ β α : Type}

/-- One round of a throwing loop. -/
def loopRound (body : σ → ClientM (σ ⊕ β)) (s : σ) : CProc (σ ⊕ Except ClientError β) :=
  (body s).run >>= fun r => .ret (iterResult r)

/-- A throwing loop in front of its next round, with what follows it. -/
def looping (body : σ → ClientM (σ ⊕ β)) (s : σ) (k : Except ClientError β → CProc α) : CProc α :=
  .loop (loopRound body) s k

/-- What follows a round. -/
def afterRoundOf (body : σ → ClientM (σ ⊕ β)) (k : Except ClientError β → CProc α)
    (r : Except ClientError (σ ⊕ β)) : CProc α :=
  Sum.elim (fun s => looping body s k) k (iterResult r)

theorem runs_looping {body : σ → ClientM (σ ⊕ β)} {s : σ} {k : Except ClientError β → CProc α}
    {ins : List (AckWaitKind × Option UInt8)} {outs : List Packet} {q : CProc α}
    (h : Runs ((body s).run >>= afterRoundOf body k) ins outs q) :
    Runs (looping body s k) ins outs q := by
  refine .tau rfl ?_
  rw [loopRound, bind_assoc]
  exact h

end Loops

namespace JoinCall

variable (j : JoinCall)

/-! ## What follows a wait -/

/-- What follows the first wait. -/
def afterFirstWait : AfterWait JoinResult := fun r =>
  ExceptT.bindCont (fun x : List ResultPair × StatusPayload => j.afterConfigure x.2) r >>= j.leave

theorem runHashJoin_starts :
    Runs j.runHashJoin [] [j.configurePacket] (j.awaiting .config [] j.afterFirstWait) :=
  .send rfl (.tau rfl (.refl _))

def afterProbeEnd : AfterWait JoinResult := fun r =>
  ExceptT.bindCont (fun x : List ResultPair × StatusPayload => j.complete x.1 x.2) r >>= j.leave

def afterProbe : Except ClientError ProbeVars → CProc JoinResult := fun r =>
  ExceptT.bindCont (fun p : ProbeVars => j.probeEnd p.results p.lastProbeAck >>= fun x =>
    j.complete x.1 x.2) r >>= j.leave

def afterBuild : Except ClientError Unit → CProc JoinResult := fun r =>
  ExceptT.bindCont (fun _ : Unit => iterE j.probeBody {} >>= fun p =>
    j.probeEnd p.results p.lastProbeAck >>= fun x => j.complete x.1 x.2) r >>= j.leave

def afterBuildWait (v : Window) : AfterWait JoinResult := fun r =>
  ExceptT.bindCont (fun x : List ResultPair × StatusPayload =>
      buildAcked v x.2 >>= fun v => (pure (Sum.inl v) : ClientM (Window ⊕ Unit))) r >>=
    afterRoundOf j.buildBody j.afterBuild

def afterProbeWait (v : Window) : AfterWait JoinResult := fun r =>
  ExceptT.bindCont (fun x : List ResultPair × StatusPayload =>
      probeAcked v x.1 x.2 >>= fun p => (pure (Sum.inl p) : ClientM (ProbeVars ⊕ ProbeVars))) r >>=
    afterRoundOf j.probeBody j.afterProbe

def afterFinalWait (results : List ResultPair) : AfterWait JoinResult := fun r =>
  ExceptT.bindCont (fun x : List ResultPair × StatusPayload =>
    if x.2.phase ≠ Phase.done.code then
      (throw (.fpgaException "FPGA final drain did not reach PHASE_DONE") : ClientM Completed)
    else verifyMatchedCount "final STATUS" (results ++ x.1) x.2 >>= fun _ =>
      pure (.reported (results ++ x.1))) r >>= j.leave

/-- What `awaitReset` does with the end of a wait. -/
def resetAnswered (attempts : Nat) :
    Except ClientError (List ResultPair × StatusPayload) → ClientM Unit
  | .error .timeout => return ()
  | .error e => throw e
  | .ok (_, ack) =>
    if ack.phase = Phase.idle.code then return ()
    else if attempts = 0 then
      throw (.fpgaException "FPGA reset after final probe ACK did not reach PHASE_IDLE")
    else j.awaitReset attempts

def afterResetWait (attempts : Nat) (results : List ResultPair) : AfterWait JoinResult := fun r =>
  (j.resetAnswered attempts r >>= fun _ => (pure results : ClientM (List ResultPair))).run

/-- What follows the wait of a state, when the wait has collected the given results. -/
def Follows : CState → List ResultPair → AfterWait JoinResult → Prop
  | .config, _, k => k = j.afterFirstWait
  | .build v, _, k => k = j.afterBuildWait v
  | .probe v results, acc, k => acc = results ∧ k = j.afterProbeWait v
  | .probeEnd results, acc, k => acc = results ∧ k = j.afterProbeEnd
  | .final results, acc, k => ∃ before, results = before ++ acc ∧ k = j.afterFinalWait before
  | .reset attempts results, _, k => k = j.afterResetWait attempts results
  | .finished _, _, _ => False

/-- The process is the client in the given wait, or it has ended. -/
inductive Rep : CState → CProc JoinResult → Prop where
  | wait (st : CState) {acc : List ResultPair} {k : AfterWait JoinResult}
      (h : j.Follows st acc k) : Rep st (j.awaiting st.kind acc k)
  | ended (r : JoinResult) : Rep (.finished r) (.ret r)

/-- The process has ended and reads nothing more. -/
theorem Rep.finished {j : JoinCall} {r : JoinResult} {p : CProc JoinResult} (h : j.Rep (.finished r) p) :
    p = .ret r := by
  cases h with
  | wait st hk => exact absurd hk id
  | ended => rfl

/-- The process sends the packets of the reaction and is then in its state. -/
def Goes (p : CProc JoinResult) (r : CReaction) : Prop := ∃ q, Runs p [] r.1 q ∧ j.Rep r.2 q

variable {j} {p q : CProc JoinResult} {r : CReaction} {ps : List Packet}

theorem Goes.emit (h : Runs p [] ps q) (hq : j.Goes q r) : j.Goes p (.emit ps r) := by
  obtain ⟨q', hrun, hrep⟩ := hq
  exact ⟨q', h.trans_nil hrun, hrep⟩

theorem Goes.silent (h : Runs p [] [] q) (hq : j.Goes q r) : j.Goes p r :=
  hq.emit h

/-! ## The end of the call -/

theorem runs_cleanup (k : Unit → CProc JoinResult) :
    Runs (j.cleanup >>= k) [] j.cleanupPackets (k ()) := by
  by_cases hreset : j.client.cfg.resetAfterRun = true
  · rw [cleanup, Proc.when, cleanupPackets, if_pos hreset, if_pos hreset]
    exact .send rfl (.refl _)
  · rw [cleanup, Proc.when, cleanupPackets, if_neg hreset, if_neg hreset]
    exact .refl _

theorem runs_awaitReset (attempts : Nat) (results : List ResultPair) :
    Runs (j.awaitReset (attempts + 1) >>= fun _ => (pure results : ClientM (List ResultPair))).run
      [] [] (j.awaiting .reset [] (j.afterResetWait attempts results)) := by
  exact .tau rfl (.refl _)

theorem goes_leave (r : Except ClientError Completed) : j.Goes (j.leave r) (j.leaveStep r) := by
  match r with
  | .error e => exact ⟨_, runs_cleanup _, .ended _⟩
  | .ok (.reported results) => exact ⟨_, runs_cleanup _, .ended _⟩
  | .ok (.inferred results) =>
    exact ⟨_, .send rfl (runs_awaitReset 7 results), .wait (.reset 7 results) rfl⟩

/-! ## Sending rows -/

theorem runs_sendRows (msg : DataMsg) (rows : List InputTuple) (slots : Nat) (v : Window) :
    Runs (j.sendRows msg rows slots v).run [] (j.rowPackets msg rows slots v)
      (.ret (.ok (v.fill j.batch rows.length slots))) := by
  induction slots generalizing v with
  | zero => exact .refl _
  | succ slots ih =>
    unfold sendRows rowPackets Window.fill
    cases hnext : v.next j.batch rows.length with
    | none => exact .refl _
    | some k => exact .send rfl (ih (v.push k))

theorem runs_sendWindow (msg : DataMsg) (rows : List InputTuple) (v : Window) :
    Runs (j.sendWindow msg rows v).run [] (j.windowPackets msg rows v)
      (.ret (.ok (j.filled rows v))) :=
  runs_sendRows msg rows _ v

theorem runs_sendWindow_then {β : Type} (msg : DataMsg) (rows : List InputTuple) (v : Window)
    (f : Window → ClientM β) (k : Except ClientError β → CProc JoinResult) :
    Runs ((j.sendWindow msg rows v >>= f).run >>= k) [] (j.windowPackets msg rows v)
      ((f (j.filled rows v)).run >>= k) :=
  ((runs_sendWindow msg rows v).bindE f).bind k

/-! ## Completion -/

/-- The count check in front of the end of the call. -/
theorem goes_verify (results : List ResultPair) (ack : StatusPayload) :
    j.Goes ((verifyMatchedCount "final STATUS" results ack >>= fun _ =>
      (pure (.reported results) : ClientM Completed)).run >>= j.leave)
      (j.verifyStep results ack) := by
  unfold verifyMatchedCount verifyStep
  split
  · exact goes_leave (.error _)
  · exact goes_leave (.ok (.reported results))

theorem goes_complete (results : List ResultPair) (ack : StatusPayload) :
    j.Goes ((j.complete results ack).run >>= j.leave) (j.completeStep results ack) := by
  unfold complete completeStep
  split
  next hinfer =>
    -- the condition already contains the count check
    have hmatched : ¬ ack.rowsMatched.toNat ≠ results.length := by
      have hfinal := hinfer.2
      unfold FinalProbeAck at hfinal
      exact not_not_intro hfinal.2.2.2.2.2
    rw [verifyMatchedCount, if_neg hmatched]
    exact goes_leave (.ok (.inferred results))
  next =>
    split
    next =>
      have hwait : j.Follows (.final results) [] (j.afterFinalWait results) :=
        ⟨results, (List.append_nil _).symm, rfl⟩
      exact ⟨_, .tau rfl (.refl _), .wait _ hwait⟩
    next => exact goes_verify results ack

theorem goes_final (before tail : List ResultPair) (ack : StatusPayload) :
    j.Goes (j.afterFinalWait before (.ok (tail, ack))) (j.finalStep (before ++ tail) ack) := by
  unfold finalStep
  by_cases hphase : ack.phase ≠ Phase.done.code
  · rw [if_pos hphase]
    have hwait : j.afterFinalWait before (.ok (tail, ack)) =
        j.leave (.error (.fpgaException "FPGA final drain did not reach PHASE_DONE")) := by
      unfold afterFinalWait ExceptT.bindCont
      dsimp only
      rw [if_pos hphase]
      rfl
    rw [hwait]
    exact goes_leave _
  · rw [if_neg hphase]
    have hwait : j.afterFinalWait before (.ok (tail, ack)) =
        (verifyMatchedCount "final STATUS" (before ++ tail) ack >>= fun _ =>
          (pure (.reported (before ++ tail)) : ClientM Completed)).run >>= j.leave := by
      unfold afterFinalWait ExceptT.bindCont
      dsimp only
      rw [if_neg hphase]
      rfl
    rw [hwait]
    exact goes_verify _ ack

/-! ## Probe phase -/

theorem goes_probeEnd (results : List ResultPair) (ack : StatusPayload) :
    j.Goes ((j.probeEnd results ack >>= fun x => j.complete x.1 x.2).run >>= j.leave)
      (j.probeEndStep results ack) := by
  unfold probeEnd probeEndStep
  split
  · exact ⟨_, .send rfl (.tau rfl (.refl _)), .wait (.probeEnd results) ⟨rfl, rfl⟩⟩
  · exact goes_complete results ack

/-- A round of the probe loop after the rows have been sent. -/
def probeSent (j : JoinCall) (results : List ResultPair) (v : Window) :
    ClientM (ProbeVars ⊕ ProbeVars) :=
  if v.inflight = [] then throw (zeroCredit "probe")
  else do
    let r ← j.collectUntilAck .probe results
    let p ← probeAcked v r.1 r.2
    return .inl p

/-- The head of the probe loop. -/
theorem goes_enterProbe (p : ProbeVars) :
    j.Goes (looping j.probeBody p j.afterProbe) (j.enterProbe p) := by
  unfold enterProbe
  split
  next hloop =>
    have hbody : j.probeBody p = j.sendWindow .outer j.outer p.win >>= j.probeSent p.results := by
      rw [probeBody, if_pos hloop]
      rfl
    have hrun := runs_sendWindow_then (j := j) .outer j.outer p.win (j.probeSent p.results)
      (afterRoundOf j.probeBody j.afterProbe)
    rw [← hbody] at hrun
    refine Goes.emit (runs_looping hrun) ?_
    unfold probeSent
    split
    · exact goes_leave (.error _)
    · exact ⟨_, .tau rfl (.refl _), .wait (.probe _ _) ⟨rfl, rfl⟩⟩
  next hloop =>
    refine Goes.silent (runs_looping ?_) (goes_probeEnd p.results p.lastProbeAck)
    rw [probeBody, if_neg hloop]
    exact .refl _

theorem goes_probe (v : Window) (results : List ResultPair) (ack : StatusPayload) :
    j.Goes (j.afterProbeWait v (.ok (results, ack))) (j.probeStep v results ack) := by
  unfold afterProbeWait ExceptT.bindCont probeAcked probeStep
  dsimp only
  split
  · exact goes_enterProbe _
  · split
    · exact goes_leave (.error _)
    · exact goes_enterProbe _

/-! ## Build phase -/

/-- A round of the build loop after the rows have been sent. -/
def buildSent (j : JoinCall) (v : Window) : ClientM (Window ⊕ Unit) :=
  if v.inflight = [] then throw (zeroCredit "build")
  else do
    let r ← j.collectUntilAck .build []
    let v ← buildAcked v r.2
    return .inl v

/-- The head of the build loop. -/
theorem goes_enterBuild (v : Window) :
    j.Goes (looping j.buildBody v j.afterBuild) (j.enterBuild v) := by
  unfold enterBuild
  split
  next hloop =>
    have hbody : j.buildBody v = j.sendWindow .inner j.inner v >>= j.buildSent := by
      rw [buildBody, if_pos hloop]
      rfl
    have hrun := runs_sendWindow_then (j := j) .inner j.inner v j.buildSent
      (afterRoundOf j.buildBody j.afterBuild)
    rw [← hbody] at hrun
    refine Goes.emit (runs_looping hrun) ?_
    unfold buildSent
    split
    · exact goes_leave (.error _)
    · exact ⟨_, .tau rfl (.refl _), .wait (.build _) rfl⟩
  next hloop =>
    refine Goes.silent (runs_looping ?_) (goes_enterProbe {})
    rw [buildBody, if_neg hloop]
    exact .refl _

theorem goes_build (v : Window) (acc : List ResultPair) (ack : StatusPayload) :
    j.Goes (j.afterBuildWait v (.ok (acc, ack))) (j.buildStep v ack) := by
  unfold afterBuildWait ExceptT.bindCont buildAcked buildStep
  dsimp only
  split
  · exact goes_leave (.error _)
  · exact goes_enterBuild _

theorem goes_config (acc : List ResultPair) (ack : StatusPayload) :
    j.Goes (j.afterFirstWait (.ok (acc, ack))) (j.enterBuild (j.firstWindow ack)) :=
  goes_enterBuild _

/-! ## Reset -/

theorem goes_reset (attempts : Nat) (results acc : List ResultPair) (ack : StatusPayload) :
    j.Goes (j.afterResetWait attempts results (.ok (acc, ack)))
      (resetStep attempts results ack) := by
  unfold afterResetWait resetAnswered resetStep
  dsimp only
  split
  · exact ⟨_, .refl _, .ended _⟩
  · split
    · exact ⟨_, .refl _, .ended _⟩
    next hattempts =>
      obtain ⟨n, rfl⟩ : ∃ n, attempts = n + 1 := ⟨attempts - 1, by omega⟩
      exact ⟨_, runs_awaitReset n results, .wait (.reset n results) rfl⟩

/-! ## All events -/

variable {st : CState} {acc : List ResultPair} {k : AfterWait JoinResult}

theorem Follows.more (h : j.Follows st acc k) (pairs : List ResultPair) :
    j.Follows (st.more pairs) (acc ++ pairs) k := by
  cases st with
  | finished r => exact absurd h id
  | final results =>
    obtain ⟨before, rfl, hk⟩ := h
    exact ⟨before, List.append_assoc _ _ _, hk⟩
  | probe v results => exact ⟨congrArg (· ++ pairs) h.1, h.2⟩
  | probeEnd results => exact ⟨congrArg (· ++ pairs) h.1, h.2⟩
  | _ => exact h

theorem Follows.answer (h : j.Follows st acc k) (a : StatusPayload) :
    j.Goes (k (.ok (acc, a))) (st.answer j a) := by
  cases st with
  | finished r => exact absurd h id
  | config =>
    obtain rfl := h
    exact goes_config acc a
  | build v =>
    obtain rfl := h
    exact goes_build v acc a
  | probe v results =>
    obtain ⟨rfl, rfl⟩ := h
    exact goes_probe v acc a
  | probeEnd results =>
    obtain ⟨rfl, rfl⟩ := h
    exact goes_complete acc a
  | final results =>
    obtain ⟨before, rfl, rfl⟩ := h
    exact goes_final before acc a
  | reset attempts results =>
    obtain rfl := h
    exact goes_reset attempts results acc a

theorem Follows.failure (h : j.Follows st acc k) (e : ClientError) :
    j.Goes (k (.error e)) (st.failure j e) := by
  cases st with
  | finished r => exact absurd h id
  | config =>
    obtain rfl := h
    exact goes_leave (.error e)
  | build v =>
    obtain rfl := h
    exact goes_leave (.error e)
  | probe v results =>
    obtain ⟨rfl, rfl⟩ := h
    exact goes_leave (.error e)
  | probeEnd results =>
    obtain ⟨rfl, rfl⟩ := h
    exact goes_leave (.error e)
  | final results =>
    obtain ⟨before, rfl, rfl⟩ := h
    exact goes_leave (.error e)
  | reset attempts results =>
    obtain rfl := h
    cases e <;> exact ⟨_, .refl _, .ended _⟩

theorem Follows.hear (h : j.Follows st acc k) (x : Heard) :
    j.Goes (j.hearing st.kind acc k x) (st.hear j x) := by
  cases x with
  | more pairs =>
    have hkind : (st.more pairs).kind = st.kind := by cases st <;> rfl
    have hrep := Rep.wait _ (h.more pairs)
    rw [hkind] at hrep
    exact ⟨_, .refl _, hrep⟩
  | answer a => exact h.answer a
  | failure e => exact h.failure e

end JoinCall

/-! ## The machine -/

/-- The reads of an event in a wait. -/
def CEvent.reads (kind : AckWaitKind) : CEvent → List (AckWaitKind × Option UInt8)
  | .frame f => tagged kind f.bytes
  | .timeout => [(kind, none)]
  | .cut f n => tagged kind (f.bytes.take n) ++ [(kind, none)]

def CEvent.vals : CEvent → List (Option UInt8)
  | .frame f => f.bytes.map some
  | .timeout => [none]
  | .cut f n => (f.bytes.take n).map some ++ [none]

theorem CEvent.map_snd_reads (kind : AckWaitKind) (e : CEvent) :
    (e.reads kind).map Prod.snd = e.vals := by
  cases e <;> simp [reads, vals]

/-- What makes an event acceptable. -/
def CEvent.Valid : CEvent → Prop
  | .frame f => f.WellFormed
  | .timeout => True
  | .cut f n => f.WellFormed ∧ 0 < n ∧ n < f.bytes.length

namespace CState

variable {j : JoinCall} {st : CState} {e : CEvent} {r : CReaction}

/-- The reaction to a valid event in a wait. -/
def react (j : JoinCall) (st : CState) : CEvent → CReaction
  | .frame f => st.hear j (j.heard st.kind f)
  | .timeout => st.failure j .timeout
  | .cut _ _ => st.failure j ResultDecoder.partialFrame

theorem step_eq_some :
    step j st e = some r ↔ (∀ x, st ≠ .finished x) ∧ e.Valid ∧ st.react j e = r := by
  cases st with
  | finished x => simp [step]
  | _ => cases e <;> simp [step, CEvent.Valid, react]

end CState

namespace JoinCall

theorem Follows.react {j : JoinCall} {st : CState} {acc : List ResultPair}
    {k : AfterWait JoinResult} (h : j.Follows st acc k) {e : CEvent} (he : e.Valid) :
    ∃ mid, Runs (j.awaiting st.kind acc k) (e.reads st.kind) [] mid ∧
      j.Goes mid (st.react j e) := by
  cases e with
  | frame f => exact ⟨_, j.awaiting_frame st.kind acc k he, h.hear _⟩
  | timeout => exact ⟨_, j.awaiting_timeout st.kind acc k, h.failure _⟩
  | cut f n => exact ⟨_, j.awaiting_cut st.kind acc k he.1 he.2.1 he.2.2, h.failure _⟩

/-- **The client as an event machine.** -/
def machine (j : JoinCall) :
    Machine AckWaitKind UInt8 Packet JoinResult CState CEvent Packet where
  vals := CEvent.vals
  obs := fun p => [p]
  Rep := j.Rep
  label := fun st e => e.reads st.kind
  step := CState.step j
  label_vals := fun _ => CEvent.map_snd_reads _ _
  waiting := by
    intro st p hp
    cases hp with
    | wait st h => exact j.awaiting_waiting _ _ _
    | ended r => trivial
  sim := by
    intro st p e ps st' hp h
    obtain ⟨hst, he, hr⟩ := CState.step_eq_some.mp h
    cases hp with
    | wait st hk =>
      obtain ⟨mid, hread, q, hsend, hq⟩ := hk.react he
      rw [hr] at hsend hq
      exact ⟨mid, ps, q, hread, hsend, by simp, hq⟩
    | ended r => exact absurd rfl (hst r)

/-- The client starts by sending CONFIGURE. -/
theorem runs_start (j : JoinCall) :
    ∃ q, Runs j.runHashJoin [] [j.configurePacket] q ∧ j.machine.Rep .config q :=
  ⟨_, j.runHashJoin_starts, .wait .config rfl⟩

/-- Frames of the kernel, as the client reads them. -/
theorem vals_of_frames {j : JoinCall} (fs : List TxFrame) :
    (fs.map CEvent.frame).flatMap j.machine.vals = (fs.flatMap TxFrame.bytes).map some := by
  rw [List.map_flatMap, List.flatMap_map]
  rfl

/-- The client follows the machine from its first wait. -/
theorem runs_of_path {j : JoinCall} {es : List CEvent} {l : List (AckWaitKind × Option UInt8)}
    {ps : List Packet} {st : CState} (h : j.machine.Path .config es l ps st) :
    ∃ q, Runs j.runHashJoin l (j.configurePacket :: ps) q ∧ j.machine.Rep st q := by
  obtain ⟨q₀, hstart, hq₀⟩ := j.runs_start
  obtain ⟨outs, q, hrun, hobs, hq⟩ := h.runs hq₀
  obtain rfl : outs = ps := by simpa [machine] using hobs
  exact ⟨q, hstart.trans hrun, hq⟩

/-- A path to the end of the call is a run of it. -/
theorem returns_of_path {j : JoinCall} {r : JoinResult} {es : List CEvent}
    {l : List (AckWaitKind × Option UInt8)} {ps : List Packet}
    (h : j.machine.Path .config es l ps (.finished r)) :
    Runs j.runHashJoin l (j.configurePacket :: ps) (.ret r) := by
  obtain ⟨q, hrun, hq⟩ := runs_of_path h
  rwa [Rep.finished hq] at hrun

/-! ## A call in batches -/

/-- Three rows on each side, in batches of one row, with two batches in flight. -/
def batchedCall : JoinCall :=
  (FpgaClient.new { maxBatchTuples := 1, ackWindowFrames := 2 }).call 0 {}
    [(1, ⟨0, 1⟩), (2, ⟨0, 2⟩), (3, ⟨0, 3⟩)] [(3, ⟨1, 1⟩), (4, ⟨1, 2⟩), (1, ⟨1, 3⟩)]

/-- The answers of the kernel up to the ACK of the second outer row. -/
def batchedAnswers : List TxFrame :=
  [.ack { phase := Phase.building.code, sessionId := 1, credit := 512 },
    .ack { phase := Phase.building.code, sessionId := 1, credit := 1, rowsProcessed := 2 },
    .ack { phase := Phase.building.code, sessionId := 1, rowsProcessed := 3 },
    .results [(⟨0, 3⟩, ⟨1, 1⟩)],
    .ack { phase := Phase.probing.code, sessionId := 1, credit := 1, rowsProcessed := 2,
           rowsMatched := 1 }]

theorem batchedAnswers_wellFormed : ∀ f ∈ batchedAnswers, f.WellFormed := by
  decide

/-- The last pair and the STATUS. -/
def batchedEnd : List TxFrame :=
  [.results [(⟨0, 1⟩, ⟨1, 3⟩)],
    .status { phase := Phase.done.code, sessionId := 1, rowsProcessed := 3, rowsMatched := 2 }]

/-- The batches, one frame in each packet. -/
def batchedPackets : List Packet :=
  [[.data .inner .int32 [(1, ⟨0, 1⟩)]], [.data .inner .int32 [(2, ⟨0, 2⟩)]],
    [.data .inner .int32 [(3, ⟨0, 3⟩)]], [.data .outer .int32 [(3, ⟨1, 1⟩)]],
    [.data .outer .int32 [(4, ⟨1, 2⟩)]], [.data .outer .int32 [(1, ⟨1, 3⟩)]]]

/-- The call has sent all rows and waits for the ACK of the last one. -/
def batchedWait : CState :=
  .probe { sent := 3, acked := 2, credit := 0, inflight := [1] } [(⟨0, 3⟩, ⟨1, 1⟩)]

theorem batchedCall_waits : batchedCall.machine.follow .config (batchedAnswers.map .frame) =
    some (batchedPackets, batchedWait) := rfl

/-- The run up to this wait. -/
theorem batchedCall_runs :
    ∃ ins q, Runs batchedCall.runHashJoin ins (batchedCall.configurePacket :: batchedPackets) q ∧
      batchedCall.Rep batchedWait q ∧ Side.reads ins = batchedAnswers.flatMap TxFrame.bytes := by
  obtain ⟨ins, hpath⟩ := Machine.exists_path_of_follow batchedCall_waits
  obtain ⟨q, hrun, hq⟩ := runs_of_path hpath
  exact ⟨ins, q, hrun, hq, (Side.reads_of_vals (hpath.vals.trans (vals_of_frames _))).1⟩

theorem batchedCall_ends : batchedCall.machine.follow batchedWait (batchedEnd.map .frame) =
    some ([], .finished (.ok [(⟨0, 3⟩, ⟨1, 1⟩), (⟨0, 1⟩, ⟨1, 3⟩)])) := rfl

end JoinCall

end FpgaHashJoin
