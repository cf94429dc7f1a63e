import FpgaHashJoin.Host.Simulation
import FpgaHashJoin.Process.AllRuns

/-!
# Frames of other sessions

Frames that another session has left in the transport are all read in the first wait of a
call, the one for the answer to CONFIGURE. This wait drops the results it collects and passes
over ACK and STATUS frames of other sessions, so the frames change nothing but the list that
is dropped. The rest of the call does not depend on that list.
-/

namespace FpgaHashJoin

open Process ResultDecoder

namespace JoinCall

variable (j : JoinCall) {α : Type}

/-- A complete frame that another session may have left behind. -/
def Stale (f : TxFrame) : Prop :=
  f.WellFormed ∧ match f with
    | .ack a | .status a => a.sessionId ≠ j.activeSessionId
    | .error _ => False
    | _ => True

/-- The answers to the reads of the client that the frames make up. -/
def answers (fs : List TxFrame) : List (Option UInt8) := (fs.flatMap TxFrame.bytes).map some

theorem heard_of_stale {f : TxFrame} (hf : j.Stale f) {kind : AckWaitKind} (hkind : kind ≠ .reset) :
    ∃ pairs, j.heard kind f = .more pairs := by
  obtain ⟨-, hf⟩ := hf
  cases f with
  | ack a | status a => exact ⟨[], if_pos ⟨hkind, hf⟩⟩
  | error code => exact absurd hf id
  | results pairs => exact ⟨pairs, rfl⟩
  | timing t => exact ⟨[], rfl⟩
  | debug level code value => exact ⟨[], rfl⟩

/-- The wait takes the frames in and goes on. -/
theorem awaiting_stale (kind : AckWaitKind) (hkind : kind ≠ .reset) (k : AfterWait α)
    (fs : List TxFrame) (hfs : ∀ f ∈ fs, j.Stale f) (acc : List ResultPair) :
    ∃ acc', Runs (j.awaiting kind acc k) (tagged kind (fs.flatMap TxFrame.bytes)) []
      (j.awaiting kind acc' k) := by
  induction fs generalizing acc with
  | nil => exact ⟨acc, .refl _⟩
  | cons f fs ih =>
    have hf := hfs f List.mem_cons_self
    obtain ⟨pairs, hheard⟩ := j.heard_of_stale hf hkind
    obtain ⟨acc', hrest⟩ := ih (fun g hg => hfs g (List.mem_cons_of_mem _ hg)) (acc ++ pairs)
    have hfirst := j.awaiting_frame kind acc k hf.1
    rw [hheard] at hfirst
    refine ⟨acc', ?_⟩
    rw [List.flatMap_cons, tagged_append]
    exact hfirst.trans hrest

/-! ## The dropped list -/

/-- The rest of the call does not look at the collected results. -/
def Drops (k : AfterWait α) : Prop := ∀ acc acc' a, k (.ok (acc, a)) = k (.ok (acc', a))

/-- What two runs with the same reads and messages have in common at their ends. -/
def SameEnd (q q' : CProc α) : Prop := (q.Waiting → q'.Waiting) ∧ ∀ r, q = .ret r → q' = .ret r

theorem SameEnd.refl (q : CProc α) : SameEnd q q := ⟨id, fun _ => id⟩

/-- What follows a round of a wait. -/
def afterRound (kind : AckWaitKind) (k : AfterWait α) :
    List ResultPair ⊕ Except ClientError (List ResultPair × StatusPayload) → CProc α :=
  Sum.elim (fun acc => .loop (j.collectRound kind) acc k) k

/-- Two rounds that receive the same end the wait in the same way, or both go on. -/
theorem afterRound_received (kind : AckWaitKind) {k : AfterWait α} (hk : Drops k)
    (acc acc' : List ResultPair) (r : Except ClientError (Option TxFrame)) :
    j.afterRound kind k (iterResult (j.received kind acc r)) =
        j.afterRound kind k (iterResult (j.received kind acc' r)) ∨
      ∃ acc₁ acc₁', j.afterRound kind k (iterResult (j.received kind acc r)) =
          .loop (j.collectRound kind) acc₁ k ∧
        j.afterRound kind k (iterResult (j.received kind acc' r)) =
          .loop (j.collectRound kind) acc₁' k := by
  rcases r with e | _ | f
  · exact Or.inl rfl
  · exact Or.inl rfl
  · unfold received
    dsimp only
    cases j.heard kind f with
    | more pairs => exact Or.inr ⟨_, _, rfl, rfl⟩
    | answer a => exact Or.inl (hk acc acc' a)
    | failure e => exact Or.inl rfl

theorem awaiting_eq (kind : AckWaitKind) (acc : List ResultPair) (k : AfterWait α) :
    j.awaiting kind acc k = (recvFrame (ClientM.recv kind)).run >>= fun r =>
      j.afterRound kind k (iterResult (j.received kind acc r)) := by
  unfold awaiting collectRound
  rw [collectBody_run, bind_assoc, bind_assoc]
  rfl

/-- A bind waits for the same reasons with every continuation, as long as its first part has
not ended. -/
theorem sameEnd_bind {β : Type} {p : CProc β} {f g : β → CProc α} (hp : ∀ b, p ≠ .ret b) :
    SameEnd (p >>= f) (p >>= g) := by
  cases p with
  | ret b => exact absurd rfl (hp b)
  | _ => exact ⟨id, nofun⟩

/-- Two loops in front of their next round. -/
theorem sameEnd_loop (kind : AckWaitKind) (k : AfterWait α) (acc acc' : List ResultPair) :
    SameEnd (Proc.loop (j.collectRound kind) acc k) (.loop (j.collectRound kind) acc' k) :=
  ⟨id, nofun⟩

/-- **Two waits that differ in the collected results do the same**, if these are dropped
afterwards. -/
theorem awaiting_drops (kind : AckWaitKind) {k : AfterWait α} (hk : Drops k) {n : Nat}
    {acc : List ResultPair} (acc' : List ResultPair) {ins : List (AckWaitKind × Option UInt8)}
    {outs : List Packet} {q : CProc α} (h : RunsIn n (j.awaiting kind acc k) ins outs q) :
    ∃ q', Runs (j.awaiting kind acc' k) ins outs q' ∧ SameEnd q q' := by
  -- on the number of steps: a further round starts with a step of the loop
  induction n using Nat.strong_induction_on generalizing acc acc' ins outs with
  | _ n ih =>
    rw [awaiting_eq] at h ⊢
    rcases h.bind_cases with ⟨p', hrun, rfl⟩ | ⟨r, n₁, n₂, i₁, i₂, o₁, o₂, h₁, h₂, rfl, rfl, rfl⟩
    · refine ⟨_, hrun.runs.bind _, ?_⟩
      by_cases hret : ∃ r, p' = .ret r
      · obtain ⟨r, rfl⟩ := hret
        rw [Proc.ret_bind, Proc.ret_bind]
        rcases j.afterRound_received kind hk acc acc' r with heq | ⟨acc₁, acc₁', heq, heq'⟩
        · rw [heq]
          exact .refl _
        · rw [heq, heq']
          exact j.sameEnd_loop kind k acc₁ acc₁'
      · exact sameEnd_bind fun r hr => hret ⟨r, hr⟩
    · dsimp only at h₂
      rcases j.afterRound_received kind hk acc acc' r with heq | ⟨acc₁, acc₁', heq, heq'⟩
      · rw [heq] at h₂
        exact ⟨q, h₁.runs.seq h₂.runs, .refl q⟩
      · rw [heq] at h₂
        cases h₂ with
        | refl =>
          refine ⟨_, h₁.runs.seq ?_, j.sameEnd_loop kind k acc₁ acc₁'⟩
          rw [heq']
          exact .refl _
        | recv hv _ => cases hv
        | poll hv _ => cases hv
        | send hv _ => cases hv
        | @tau m _ _ _ _ _ hv run =>
          cases hv
          obtain ⟨q', hq', hend⟩ := ih m (by omega) acc₁' run
          refine ⟨q', h₁.runs.seq ?_, hend⟩
          rw [heq']
          exact .tau rfl hq'

/-! ## Whole calls -/

theorem drops_afterFirstWait : Drops j.afterFirstWait := fun _ _ _ => rfl

/-- The answers lead the first wait to the same end, whatever it has collected. -/
theorem settles_awaiting {k : AfterWait α} (hk : Drops k) {acc : List ResultPair}
    (acc' : List ResultPair) {vals : List (Option UInt8)} {outs : List Packet} {q : CProc α}
    (h : Settles (j.awaiting .config acc k) vals outs q) :
    ∃ q', Settles (j.awaiting .config acc' k) vals outs q' ∧ ∀ r, q = .ret r → q' = .ret r := by
  obtain ⟨⟨ins, hrun, hins⟩, hq⟩ := h
  obtain ⟨n, hn⟩ := hrun.counted
  obtain ⟨q', hrun', hwait, hret⟩ := j.awaiting_drops .config hk acc' hn
  exact ⟨q', ⟨⟨ins, hrun', hins⟩, hwait hq⟩, hret⟩

/-- **Frames of other sessions in front of the frames of a session change nothing.** Given the
answers `vals`, with or without the bytes of such frames before them, the call sends the same
packets before it waits or ends, and it ends with the same pairs or the same error. -/
theorem stale_frames_ignored (stale : List TxFrame) (hstale : ∀ f ∈ stale, j.Stale f)
    (vals : List (Option UInt8)) (outs : List Packet) :
    ((∃ q, Settles j.runHashJoin vals outs q) ↔
        ∃ q, Settles j.runHashJoin (answers stale ++ vals) outs q) ∧
      ∀ r, Settles j.runHashJoin vals outs (.ret r) ↔
        Settles j.runHashJoin (answers stale ++ vals) outs (.ret r) := by
  have hk := j.drops_afterFirstWait
  obtain ⟨acc, hrun⟩ := j.awaiting_stale .config nofun j.afterFirstWait stale hstale []
  have hlabel : answers stale =
      (tagged AckWaitKind.config (stale.flatMap TxFrame.bytes)).map Prod.snd := by
    rw [map_snd_tagged]
    rfl
  have hwith : ∀ q, Settles j.runHashJoin (answers stale ++ vals) outs q ↔
      ∃ outs', outs = [j.configurePacket] ++ outs' ∧
        Settles (j.awaiting .config acc j.afterFirstWait) vals outs' q := by
    intro q
    rw [hlabel]
    exact Settles.after_iff (j.runHashJoin_starts.trans hrun)
  have hwithout : ∀ q, Settles j.runHashJoin vals outs q ↔
      ∃ outs', outs = [j.configurePacket] ++ outs' ∧
        Settles (j.awaiting .config [] j.afterFirstWait) vals outs' q := fun q =>
    Settles.after_iff j.runHashJoin_starts
  simp only [hwith, hwithout]
  refine ⟨⟨?_, ?_⟩, fun r => ⟨?_, ?_⟩⟩
  · rintro ⟨q, outs', rfl, h⟩
    obtain ⟨q', h', -⟩ := j.settles_awaiting hk acc h
    exact ⟨q', outs', rfl, h'⟩
  · rintro ⟨q, outs', rfl, h⟩
    obtain ⟨q', h', -⟩ := j.settles_awaiting hk [] h
    exact ⟨q', outs', rfl, h'⟩
  · rintro ⟨outs', rfl, h⟩
    obtain ⟨q', h', hret⟩ := j.settles_awaiting hk acc h
    exact ⟨outs', rfl, hret r rfl ▸ h'⟩
  · rintro ⟨outs', rfl, h⟩
    obtain ⟨q', h', hret⟩ := j.settles_awaiting hk [] h
    exact ⟨outs', rfl, hret r rfl ▸ h'⟩

/-- The kernel's answers lead the call to its pairs. -/
theorem batchedCall_returns :
    Settles batchedCall.runHashJoin (answers (batchedAnswers ++ batchedEnd))
      (batchedCall.configurePacket :: batchedPackets)
      (.ret (.ok [(⟨0, 3⟩, ⟨1, 1⟩), (⟨0, 1⟩, ⟨1, 3⟩)])) := by
  obtain ⟨l, hpath⟩ := Machine.exists_path_of_follow batchedCall_waits
  obtain ⟨l', hpath'⟩ := Machine.exists_path_of_follow batchedCall_ends
  have hall := hpath.trans hpath'
  refine ⟨⟨_, returns_of_path hall, ?_⟩, trivial⟩
  rw [hall.vals, ← List.map_append, vals_of_frames]
  rfl

/-- Two frames of session 7 in front of the answers of the kernel: the call returns its pairs. -/
theorem stale_frames_ignored_batchedCall :
    Settles batchedCall.runHashJoin
      (answers [.results [(⟨1, 2⟩, ⟨3, 4⟩)], .ack { sessionId := 7 }] ++
        answers (batchedAnswers ++ batchedEnd))
      (batchedCall.configurePacket :: batchedPackets)
      (.ret (.ok [(⟨0, 3⟩, ⟨1, 1⟩), (⟨0, 1⟩, ⟨1, 3⟩)])) := by
  have hstale : ∀ f ∈ [TxFrame.results [(⟨1, 2⟩, ⟨3, 4⟩)], .ack { sessionId := 7 }],
      batchedCall.Stale f := by
    simp [Stale, TxFrame.WellFormed, txBufSize_eq]
    decide
  exact ((batchedCall.stale_frames_ignored _ hstale _ _).2 _).mp batchedCall_returns

end JoinCall

end FpgaHashJoin
