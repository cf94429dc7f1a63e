import FpgaHashJoin.Host.Events

/-!
# What the client sends

The frames of a call, whatever the answers are. The rows of a table go out in order, none is
left out and none is sent twice; the variables of a loop account for every batch that has been
sent (`Batches`). From this follow the order of the frames of a whole call and a bound on the
number of answers that a loop takes.
-/

namespace FpgaHashJoin

open Process CreditWindow

/-- What an ACK does to the variables of a loop: batches are retired from the front, as far as
the ACK covers them. -/
theorem applyCumulativeAck_spec (v : Window) (rowsProcessed : UInt32) :
    ∃ gone, v.inflight = gone ++ (applyCumulativeAck v rowsProcessed).2.inflight ∧
      (applyCumulativeAck v rowsProcessed).1 = gone.length ∧
      (applyCumulativeAck v rowsProcessed).2.acked = v.acked + gone.sum ∧
      (applyCumulativeAck v rowsProcessed).2.sent = v.sent ∧
      (gone ≠ [] → v.acked + gone.sum ≤ rowsProcessed.toNat) := by
  unfold applyCumulativeAck
  split
  · exact ⟨[], by simp⟩
  · obtain ⟨gone, hsplit, hcount, hacked, hcover⟩ :=
      retire_spec rowsProcessed.toNat v.acked v.inflight
    exact ⟨gone, hsplit, hcount, hacked, rfl, hcover⟩

namespace JoinCall

/-! ## The batches of one loop -/

/-- The batches `cs` of `rows` have been sent, and the variables of the loop say so: the last
of them are in flight, and the rows of the others are acknowledged. -/
structure Batches (b : Nat) (rows : List InputTuple) (v : Window)
    (cs : List (List InputTuple)) : Prop where
  rows_eq : cs.flatten = rows.take v.sent
  sent_le : v.sent ≤ rows.length
  size : ∀ c ∈ cs, 0 < c.length ∧ c.length ≤ b
  retired : ∃ gone, cs.map List.length = gone ++ v.inflight ∧ gone.sum = v.acked

namespace Batches

variable {b : Nat} {rows : List InputTuple} {v : Window} {cs : List (List InputTuple)}

/-- Acknowledged rows and rows in flight make up the rows that have been sent. -/
theorem balance (h : Batches b rows v cs) : v.acked + v.inflight.sum = v.sent := by
  obtain ⟨gone, hlen, hgone⟩ := h.retired
  have hflat := congrArg List.length h.rows_eq
  rw [List.length_flatten, hlen, List.sum_append, hgone, List.length_take,
    Nat.min_eq_left h.sent_le] at hflat
  exact hflat

theorem start (b : Nat) (rows : List InputTuple) (credit : Nat) :
    Batches b rows { credit } [] where
  rows_eq := by simp
  sent_le := Nat.zero_le _
  size := by simp
  retired := ⟨[], rfl, rfl⟩

/-- One more batch. -/
theorem push (hb : 0 < b) (h : Batches b rows v cs) {k : Nat}
    (hk : v.next b rows.length = some k) :
    Batches b rows (v.push k) (cs ++ [(rows.drop v.sent).take k]) := by
  obtain ⟨hmore, hk, -⟩ := (Window.next_eq_some hb).mp hk
  have hlen : ((rows.drop v.sent).take k).length = k := by
    rw [List.length_take, List.length_drop]
    omega
  obtain ⟨gone, hinflight, hgone⟩ := h.retired
  refine ⟨?_, ?_, ?_, gone, ?_, hgone⟩
  · rw [List.flatten_append, h.rows_eq, List.flatten_singleton]
    exact List.take_add.symm
  · change v.sent + k ≤ rows.length
    omega
  · intro c hc
    rcases List.mem_append.mp hc with hc | hc
    · exact h.size c hc
    · rw [List.mem_singleton.mp hc, hlen]
      omega
  · rw [List.map_append, hinflight, List.map_singleton, hlen, List.append_assoc]
    rfl

/-- An acknowledgement changes which batches are in flight, and nothing else. -/
theorem ack (h : Batches b rows v cs) (credit : Nat) (rowsProcessed : UInt32) :
    Batches b rows (applyCumulativeAck { v with credit } rowsProcessed).2 cs := by
  obtain ⟨gone, hsplit, -, hacked, hsent, -⟩ := applyCumulativeAck_spec { v with credit } rowsProcessed
  obtain ⟨gone₀, hinflight, hgone₀⟩ := h.retired
  refine ⟨?_, ?_, h.size, gone₀ ++ gone, ?_, ?_⟩
  · rw [hsent]
    exact h.rows_eq
  · rw [hsent]
    exact h.sent_le
  · rw [hinflight, List.append_assoc]
    exact congrArg (gone₀ ++ ·) hsplit
  · rw [List.sum_append, hgone₀, hacked]

end Batches

/-- The packets with the given batches. -/
def dataPackets (j : JoinCall) (msg : DataMsg) (cs : List (List InputTuple)) : List Packet :=
  cs.map fun c => [.data msg j.config.keyType c]

theorem flatten_dataPackets (j : JoinCall) (msg : DataMsg) (cs : List (List InputTuple)) :
    (j.dataPackets msg cs).flatten = cs.map (.data msg j.config.keyType) := by
  induction cs with
  | nil => rfl
  | cons c cs ih => exact congrArg (_ :: ·) ih

variable {j : JoinCall}

theorem Batches.rowPackets (msg : DataMsg) {rows : List InputTuple} (slots : Nat) {v : Window}
    {cs : List (List InputTuple)} (h : Batches j.batch rows v cs) :
    ∃ new, j.rowPackets msg rows slots v = j.dataPackets msg new ∧
      Batches j.batch rows (v.fill j.batch rows.length slots) (cs ++ new) ∧
      (v.fill j.batch rows.length slots).inflight = v.inflight ++ new.map List.length := by
  induction slots generalizing v cs with
  | zero => exact ⟨[], rfl, by simpa [Window.fill] using h, by simp [Window.fill]⟩
  | succ slots ih =>
    unfold JoinCall.rowPackets Window.fill
    cases hnext : v.next j.batch rows.length with
    | none => exact ⟨[], rfl, by simpa using h, by simp⟩
    | some k =>
      obtain ⟨hmore, hk, -⟩ := (Window.next_eq_some j.client.batch_pos).mp hnext
      have hlen : ((rows.drop v.sent).take k).length = k := by
        rw [List.length_take, List.length_drop]
        omega
      obtain ⟨new, hpackets, hnew, hin⟩ := ih (h.push j.client.batch_pos hnext)
      refine ⟨(rows.drop v.sent).take k :: new, ?_, by simpa using hnew, ?_⟩
      · exact congrArg (_ :: ·) hpackets
      · change ((v.push k).fill j.batch rows.length slots).inflight = _
        rw [hin, List.map_cons, hlen]
        exact List.append_assoc _ _ _

/-! ## One loop -/

/-- A loop has sent the batches `cs` of `rows` and has taken the answers `acks`. -/
structure InLoop (j : JoinCall) (rows : List InputTuple) (v : Window)
    (cs : List (List InputTuple)) (acks : List StatusPayload) : Prop where
  batches : Batches j.batch rows v cs
  room : v.inflight.length ≤ j.window
  seen : v.acked = 0 ∨ ∃ a ∈ acks, v.acked ≤ a.rowsProcessed.toNat
  paid : acks.length + v.inflight.length ≤ cs.length

namespace InLoop

variable {rows : List InputTuple} {v : Window} {cs : List (List InputTuple)}
  {acks : List StatusPayload}

theorem start (j : JoinCall) (rows : List InputTuple) (credit : Nat) :
    InLoop j rows { credit } [] [] :=
  ⟨.start _ _ _, Nat.zero_le _, Or.inl rfl, Nat.le_refl _⟩

/-- **Filling the window sends the next batches**, as many as there is room for. -/
theorem fill (msg : DataMsg) (h : InLoop j rows v cs acks) :
    ∃ new, j.windowPackets msg rows v = j.dataPackets msg new ∧
      InLoop j rows (j.filled rows v) (cs ++ new) acks := by
  obtain ⟨new, hpackets, hnew, hin⟩ :=
    h.batches.rowPackets msg (j.window - v.inflight.length)
  obtain ⟨ks, hks, hlen, -, hacked, -⟩ := Window.fill_spec j.batch rows.length
    (j.window - v.inflight.length) v
  have hroom := h.room
  have hpaid := h.paid
  refine ⟨new, hpackets, hnew, ?_, ?_, ?_⟩
  · rw [filled, hks, List.length_append]
    omega
  · rw [filled, hacked]
    exact h.seen
  · rw [filled, hin, List.length_append, List.length_append, List.length_map]
    omega

/-- **An answer that does not throw retires a batch.** -/
theorem ack (h : InLoop j rows v cs acks) (hne : v.inflight ≠ []) (a : StatusPayload)
    (hgo : ¬ ((applyCumulativeAck { v with credit := a.credit.toNat } a.rowsProcessed).1 = 0 ∧
      (applyCumulativeAck { v with credit := a.credit.toNat } a.rowsProcessed).2.inflight ≠ [])) :
    InLoop j rows (applyCumulativeAck { v with credit := a.credit.toNat } a.rowsProcessed).2 cs
      (acks ++ [a]) := by
  obtain ⟨gone, hsplit, hcount, hacked, -, hcover⟩ :=
    applyCumulativeAck_spec { v with credit := a.credit.toNat } a.rowsProcessed
  have hlen : v.inflight.length = gone.length +
      (applyCumulativeAck { v with credit := a.credit.toNat } a.rowsProcessed).2.inflight.length := by
    rw [← List.length_append]
    exact congrArg List.length hsplit
  have hgone : gone ≠ [] := by
    rintro rfl
    refine hgo ⟨hcount, ?_⟩
    rw [List.nil_append] at hsplit
    rw [← hsplit]
    exact hne
  have hpos := List.length_pos_iff.mpr hgone
  have hroom := h.room
  have hpaid := h.paid
  refine ⟨h.batches.ack _ _, by omega, Or.inr ⟨a, by simp, ?_⟩, ?_⟩
  · rw [hacked]
    exact hcover hgone
  · rw [List.length_append, List.length_singleton]
    omega

end InLoop

/-! ## A whole call -/

/-- The frames of a call, apart from CONFIGURE. -/
structure Sent where
  inners : List (List InputTuple) := []
  outers : List (List InputTuple) := []
  marker : Bool := false
  resets : Nat := 0

/-- CONFIGURE, the inner batches, the outer batches, the marker for the end of the rows and
RESET, in this order. -/
def Sent.frames (j : JoinCall) (s : Sent) : List HostFrame :=
  .configure j.configurePayload ::
    (s.inners.map (.data .inner j.config.keyType) ++ s.outers.map (.data .outer j.config.keyType) ++
      (if s.marker then [.data .outer j.config.keyType []] else []) ++
      List.replicate s.resets .reset)

/-- The rows are in order, and outer rows are only sent after all inner rows. -/
structure InOrder (j : JoinCall) (s : Sent) : Prop where
  inner : s.inners.flatten <+: j.inner
  outer : s.outers.flatten <+: j.outer
  size : ∀ c ∈ s.inners ++ s.outers, 0 < c.length ∧ c.length ≤ j.batch
  late : s.outers ≠ [] ∨ s.marker = true → s.inners.flatten = j.inner

/-- The build phase is over. -/
structure Built (j : JoinCall) (s : Sent) : Prop where
  order : InOrder j s
  inner : s.inners.flatten = j.inner

/-- The build loop of a call that has sent `s` and taken the answers `acks`. -/
structure Building (j : JoinCall) (s : Sent) (v : Window) (acks : List StatusPayload) : Prop where
  loop : InLoop j j.inner v s.inners acks
  outers : s.outers = []
  marker : s.marker = false
  resets : s.resets = 0

/-- The probe loop of a call that has sent `s` and taken the answers `acks` in it. -/
structure Probing (j : JoinCall) (s : Sent) (v : Window) (acks : List StatusPayload) : Prop where
  inner : s.inners.flatten = j.inner
  size : ∀ c ∈ s.inners, 0 < c.length ∧ c.length ≤ j.batch
  loop : InLoop j j.outer v s.outers acks
  marker : s.marker = false
  resets : s.resets = 0

/-- What the state of a call says about the frames `s` that have been sent and about the
answers that the two loops have taken. -/
def Sent.Of (j : JoinCall) (s : Sent) (nb np : List StatusPayload) : CState → Prop
  | .config => (∀ a, Building j s (j.firstWindow a) nb) ∧ nb = [] ∧ np = []
  | .build v => Building j s v nb ∧ v.inflight ≠ [] ∧ np = []
  | .probe v _ => nb.length ≤ s.inners.length ∧ Probing j s v np ∧ v.inflight ≠ []
  | .finished (.error _) => InOrder j s ∧ nb.length ≤ s.inners.length ∧ np.length ≤ s.outers.length
  | .probeEnd _ => Built j s ∧ s.resets = 0 ∧ nb.length ≤ s.inners.length ∧
      np.length ≤ s.outers.length
  | .final _ => Built j s ∧ s.resets = 0 ∧ nb.length ≤ s.inners.length ∧
      np.length ≤ s.outers.length
  | .reset _ _ => Built j s ∧ nb.length ≤ s.inners.length ∧ np.length ≤ s.outers.length
  | .finished (.ok _) => Built j s ∧ nb.length ≤ s.inners.length ∧ np.length ≤ s.outers.length

/-- A reaction sends its packets after `s` and leads to a state that says so. -/
def Sent.Goes (j : JoinCall) (s : Sent) (nb np : List StatusPayload) (r : CReaction) : Prop :=
  ∃ s' : Sent, s'.frames j = s.frames j ++ r.1.flatten ∧ s'.Of j nb np r.2

section Steps

variable {s : Sent} {v : Window} {nb np : List StatusPayload}

theorem Sent.Goes.emit {s₁ : Sent} {r : CReaction} {ps : List Packet}
    (hs : s₁.frames j = s.frames j ++ ps.flatten) (h : s₁.Goes j nb np r) :
    s.Goes j nb np (.emit ps r) := by
  obtain ⟨s', hframes, hof⟩ := h
  refine ⟨s', ?_, hof⟩
  rw [hframes, hs, CReaction.emit, List.flatten_append, List.append_assoc]

theorem Building.inOrder (h : Building j s v nb) : InOrder j s := by
  refine ⟨?_, ?_, ?_, ?_⟩
  · rw [h.loop.batches.rows_eq]
    exact List.take_prefix _ _
  · rw [h.outers]
    exact List.nil_prefix
  · rw [h.outers, List.append_nil]
    exact h.loop.batches.size
  · simp [h.outers, h.marker]

theorem Building.paid (h : Building j s v nb) : nb.length ≤ s.inners.length := by
  have hpaid := h.loop.paid
  omega

theorem Probing.built (h : Probing j s v np) : Built j s := by
  refine ⟨⟨?_, ?_, ?_, fun _ => h.inner⟩, h.inner⟩
  · rw [h.inner]
  · rw [h.loop.batches.rows_eq]
    exact List.take_prefix _ _
  · intro c hc
    rcases List.mem_append.mp hc with hc | hc
    · exact h.size c hc
    · exact h.loop.batches.size c hc

theorem Probing.paid (h : Probing j s v np) : np.length ≤ s.outers.length := by
  have hpaid := h.loop.paid
  omega

/-- RESET may follow everything. -/
theorem Sent.frames_reset (j : JoinCall) (s : Sent) :
    ({ s with resets := s.resets + 1 } : Sent).frames j = s.frames j ++ [.reset] := by
  simp [Sent.frames, List.replicate_succ', ← List.append_assoc]

theorem goes_leave_error (h : InOrder j s) (hnb : nb.length ≤ s.inners.length)
    (hnp : np.length ≤ s.outers.length) (e : ClientError) :
    s.Goes j nb np (j.leaveStep (.error e)) := by
  unfold leaveStep cleanupPackets
  dsimp only
  split
  · exact ⟨{ s with resets := s.resets + 1 }, s.frames_reset j, ⟨h.inner, h.outer, h.size, h.late⟩,
      hnb, hnp⟩
  · exact ⟨s, by simp, h, hnb, hnp⟩

theorem goes_leave_ok (h : Built j s) (hnb : nb.length ≤ s.inners.length)
    (hnp : np.length ≤ s.outers.length) (c : Completed) : s.Goes j nb np (j.leaveStep (.ok c)) := by
  have hmore : Built j { s with resets := s.resets + 1 } :=
    ⟨⟨h.order.inner, h.order.outer, h.order.size, h.order.late⟩, h.inner⟩
  cases c with
  | reported results =>
    unfold leaveStep cleanupPackets
    dsimp only
    split
    · exact ⟨_, s.frames_reset j, hmore, hnb, hnp⟩
    · exact ⟨s, by simp, h, hnb, hnp⟩
  | inferred results => exact ⟨_, s.frames_reset j, hmore, hnb, hnp⟩

theorem goes_verify_sent (h : Built j s) (hnb : nb.length ≤ s.inners.length)
    (hnp : np.length ≤ s.outers.length) (results : List ResultPair) (a : StatusPayload) :
    s.Goes j nb np (j.verifyStep results a) := by
  unfold verifyStep
  split
  · exact goes_leave_error h.order hnb hnp _
  · exact goes_leave_ok h hnb hnp _

theorem goes_complete_sent (h : Built j s) (hr : s.resets = 0) (hnb : nb.length ≤ s.inners.length)
    (hnp : np.length ≤ s.outers.length) (results : List ResultPair) (a : StatusPayload) :
    s.Goes j nb np (j.completeStep results a) := by
  unfold completeStep
  split_ifs
  · exact goes_leave_ok h hnb hnp _
  · exact ⟨s, by simp, h, hr, hnb, hnp⟩
  · exact goes_verify_sent h hnb hnp results a

theorem goes_final_sent (h : Built j s) (hnb : nb.length ≤ s.inners.length)
    (hnp : np.length ≤ s.outers.length) (results : List ResultPair) (a : StatusPayload) :
    s.Goes j nb np (j.finalStep results a) := by
  unfold finalStep
  split
  · exact goes_leave_error h.order hnb hnp _
  · exact goes_verify_sent h hnb hnp results a

theorem goes_reset_sent (h : Built j s) (hnb : nb.length ≤ s.inners.length)
    (hnp : np.length ≤ s.outers.length) (attempts : Nat) (results : List ResultPair)
    (a : StatusPayload) : s.Goes j nb np (resetStep attempts results a) := by
  unfold resetStep
  split_ifs
  · exact ⟨s, by simp, h, hnb, hnp⟩
  · exact ⟨s, by simp, h.order, hnb, hnp⟩
  · exact ⟨s, by simp, h, hnb, hnp⟩

/-- The end of the probe loop. -/
theorem goes_probeEnd_sent (h : Built j s) (hm : s.marker = false) (hr : s.resets = 0)
    (hnb : nb.length ≤ s.inners.length) (hnp : np.length ≤ s.outers.length)
    (results : List ResultPair) (a : StatusPayload) :
    s.Goes j nb np (j.probeEndStep results a) := by
  unfold probeEndStep
  split
  · refine ⟨{ s with marker := true }, ?_, ⟨⟨h.order.inner, h.order.outer, h.order.size,
      fun _ => h.inner⟩, h.inner⟩, hr, hnb, hnp⟩
    simp [Sent.frames, hm, hr]
  · exact goes_complete_sent h hr hnb hnp results a

/-- The head of the probe loop. -/
theorem goes_enterProbe_sent {p : ProbeVars} (h : Probing j s p.win np)
    (hnb : nb.length ≤ s.inners.length) : s.Goes j nb np (j.enterProbe p) := by
  unfold enterProbe
  split
  · obtain ⟨new, hpackets, hloop⟩ := h.loop.fill .outer
    have hnew : Probing j { s with outers := s.outers ++ new } (j.filled j.outer p.win) np :=
      ⟨h.inner, h.size, hloop, h.marker, h.resets⟩
    have hframes : ({ s with outers := s.outers ++ new } : Sent).frames j =
        s.frames j ++ (j.windowPackets .outer j.outer p.win).flatten := by
      rw [hpackets, flatten_dataPackets]
      simp [Sent.frames, h.marker, h.resets]
    refine Sent.Goes.emit hframes ?_
    split
    · exact goes_leave_error hnew.built.order hnb hnew.paid _
    next hne => exact ⟨_, (List.append_nil _).symm, hnb, hnew, hne⟩
  · exact goes_probeEnd_sent h.built h.marker h.resets hnb h.paid p.results p.lastProbeAck

theorem goes_probe_sent (h : Probing j s v np) (hne : v.inflight ≠ [])
    (hnb : nb.length ≤ s.inners.length) (results : List ResultPair) (a : StatusPayload) :
    s.Goes j nb (np ++ [a]) (j.probeStep v results a) := by
  have hpaid := h.loop.paid
  have hpos := List.length_pos_iff.mpr hne
  have hnp : (np ++ [a]).length ≤ s.outers.length := by
    rw [List.length_append, List.length_singleton]
    omega
  unfold probeStep
  dsimp only
  split
  next hdone =>
    rw [j.enterProbe_done _ rfl]
    exact goes_probeEnd_sent h.built h.marker h.resets hnb hnp results a
  next =>
    split
    · exact goes_leave_error h.built.order hnb hnp _
    next hgo =>
      have hnext : Probing j s _ (np ++ [a]) :=
        ⟨h.inner, h.size, h.loop.ack hne a hgo, h.marker, h.resets⟩
      exact goes_enterProbe_sent hnext hnb

/-- The head of the build loop. -/
theorem goes_enterBuild_sent (h : Building j s v nb) : s.Goes j nb [] (j.enterBuild v) := by
  unfold enterBuild
  split
  · obtain ⟨new, hpackets, hloop⟩ := h.loop.fill .inner
    have hnew : Building j { s with inners := s.inners ++ new } (j.filled j.inner v) nb :=
      ⟨hloop, h.outers, h.marker, h.resets⟩
    have hframes : ({ s with inners := s.inners ++ new } : Sent).frames j =
        s.frames j ++ (j.windowPackets .inner j.inner v).flatten := by
      rw [hpackets, flatten_dataPackets]
      simp [Sent.frames, h.outers, h.marker, h.resets]
    refine Sent.Goes.emit hframes ?_
    split
    · exact goes_leave_error hnew.inOrder hnew.paid (Nat.zero_le _) _
    next hne => exact ⟨_, (List.append_nil _).symm, hnew, hne, rfl⟩
  next hend =>
    have hall : s.inners.flatten = j.inner := by
      rw [h.loop.batches.rows_eq, List.take_of_length_le]
      exact Nat.not_lt.mp fun hlt => hend (Or.inl hlt)
    have hloop : InLoop j j.outer { credit := rxCreditTuples } s.outers [] := by
      rw [h.outers]
      exact .start j j.outer _
    exact goes_enterProbe_sent ⟨hall, h.loop.batches.size, hloop, h.marker, h.resets⟩ h.paid

theorem goes_build_sent (h : Building j s v nb) (hne : v.inflight ≠ []) (a : StatusPayload) :
    s.Goes j (nb ++ [a]) [] (j.buildStep v a) := by
  unfold buildStep
  dsimp only
  split
  · have hpaid := h.loop.paid
    have hpos := List.length_pos_iff.mpr hne
    refine goes_leave_error h.inOrder ?_ (Nat.zero_le _) _
    rw [List.length_append, List.length_singleton]
    omega
  next hgo =>
    have hnext : Building j s _ (nb ++ [a]) :=
      ⟨h.loop.ack hne a hgo, h.outers, h.marker, h.resets⟩
    exact goes_enterBuild_sent hnext

/-- A wait that fails ends the call. -/
theorem goes_failure_sent {st : CState} (h : s.Of j nb np st) (e : ClientError) :
    s.Goes j nb np (st.failure j e) := by
  cases st with
  | config =>
    obtain ⟨hloop, rfl, rfl⟩ := h
    exact goes_leave_error (hloop {}).inOrder (Nat.zero_le _) (Nat.zero_le _) e
  | build v =>
    obtain ⟨hloop, -, rfl⟩ := h
    exact goes_leave_error hloop.inOrder hloop.paid (Nat.zero_le _) e
  | probe v results =>
    obtain ⟨hnb, hloop, -⟩ := h
    exact goes_leave_error hloop.built.order hnb hloop.paid e
  | probeEnd results =>
    obtain ⟨hb, -, hnb, hnp⟩ := h
    exact goes_leave_error hb.order hnb hnp e
  | final results =>
    obtain ⟨hb, -, hnb, hnp⟩ := h
    exact goes_leave_error hb.order hnb hnp e
  | reset attempts results =>
    obtain ⟨hb, hnb, hnp⟩ := h
    refine ⟨s, (List.append_nil _).symm, ?_⟩
    unfold CState.failure
    dsimp only
    split
    · exact ⟨hb, hnb, hnp⟩
    · exact ⟨hb.order, hnb, hnp⟩
  | finished r => exact ⟨s, (List.append_nil _).symm, h⟩

end Steps

/-! ## The answers of the loops -/

end JoinCall

namespace CState

/-- The client waits in the build loop. -/
def inBuild : CState → Bool
  | .build _ => true
  | _ => false

/-- The client waits in the probe loop. -/
def inProbe : CState → Bool
  | .probe _ _ => true
  | _ => false

/-- The ACK or STATUS that an event brings to a wait. -/
def ack? (j : JoinCall) (st : CState) : CEvent → Option StatusPayload
  | .frame f =>
    match j.heard st.kind f with
    | .answer a => some a
    | _ => none
  | _ => none

end CState

namespace JoinCall

/-- The answers that the waits of a loop take, when the call goes on from the given state. -/
def acksIn (j : JoinCall) (loop : CState → Bool) : CState → List CEvent → List StatusPayload
  | _, [] => []
  | st, e :: es =>
    (if loop st then (st.ack? j e).toList else []) ++ acksIn j loop (st.react j e).2 es

section Paths

variable {s : Sent} {nb np : List StatusPayload} {st : CState}

theorem goes_answer_sent (h : s.Of j nb np st) (a : StatusPayload) :
    s.Goes j (nb ++ if st.inBuild then [a] else []) (np ++ if st.inProbe then [a] else [])
      (st.answer j a) := by
  cases st with
  | config =>
    obtain ⟨hloop, rfl, rfl⟩ := h
    exact goes_enterBuild_sent (hloop a)
  | build v =>
    obtain ⟨hloop, hne, rfl⟩ := h
    exact goes_build_sent hloop hne a
  | probe v results =>
    obtain ⟨hnb, hloop, hne⟩ := h
    simpa [CState.inBuild, CState.inProbe, CState.answer] using goes_probe_sent hloop hne hnb results a
  | probeEnd results =>
    obtain ⟨hb, hr, hnb, hnp⟩ := h
    simpa [CState.inBuild, CState.inProbe, CState.answer] using
      goes_complete_sent hb hr hnb hnp results a
  | final results =>
    obtain ⟨hb, hr, hnb, hnp⟩ := h
    simpa [CState.inBuild, CState.inProbe, CState.answer] using
      goes_final_sent hb hnb hnp results a
  | reset attempts results =>
    obtain ⟨hb, hnb, hnp⟩ := h
    simpa [CState.inBuild, CState.inProbe, CState.answer] using
      goes_reset_sent hb hnb hnp attempts results a
  | finished r =>
    exact ⟨s, (List.append_nil _).symm, by simpa [CState.inBuild, CState.inProbe, CState.answer] using h⟩

theorem Sent.Of.more (h : s.Of j nb np st) (pairs : List ResultPair) :
    s.Of j nb np (st.more pairs) := by
  cases st <;> exact h

/-- **One event**: what the call has sent stays in order. -/
theorem goes_react_sent (h : s.Of j nb np st) (e : CEvent) :
    s.Goes j (nb ++ if st.inBuild then (st.ack? j e).toList else [])
      (np ++ if st.inProbe then (st.ack? j e).toList else []) (st.react j e) := by
  cases e with
  | timeout => simpa [CState.ack?, CState.react] using goes_failure_sent h .timeout
  | cut f n => simpa [CState.ack?, CState.react] using goes_failure_sent h ResultDecoder.partialFrame
  | frame f =>
    unfold CState.ack? CState.react CState.hear
    dsimp only
    cases j.heard st.kind f with
    | more pairs => simpa using ⟨s, (List.append_nil _).symm, h.more pairs⟩
    | answer a => simpa using goes_answer_sent h a
    | failure e => simpa using goes_failure_sent h e

/-- **All events.** -/
theorem goes_path_sent {es : List CEvent} {l : List (AckWaitKind × Option UInt8)}
    {ps : List Packet} {st' : CState} (hpath : j.machine.Path st es l ps st')
    (h : s.Of j nb np st) :
    ∃ s' : Sent, s'.frames j = s.frames j ++ ps.flatten ∧
      s'.Of j (nb ++ j.acksIn CState.inBuild st es) (np ++ j.acksIn CState.inProbe st es) st' := by
  induction hpath generalizing s nb np with
  | nil st => exact ⟨s, (List.append_nil _).symm, by simpa [acksIn] using h⟩
  | cons hstep _ ih =>
    obtain ⟨-, -, hr⟩ := CState.step_eq_some.mp hstep
    obtain ⟨s₁, hframes₁, hof₁⟩ := goes_react_sent h _
    rw [hr] at hframes₁ hof₁
    obtain ⟨s₂, hframes₂, hof₂⟩ := ih hof₁
    refine ⟨s₂, ?_, ?_⟩
    · rw [hframes₂, hframes₁, List.flatten_append, List.append_assoc]
    · simpa [acksIn, hr, List.append_assoc] using hof₂

/-! ## From the beginning of the call -/

/-- What the first packet carries. -/
def firstSent (j : JoinCall) : Sent where
  inners := if j.firstInnerBatch = 0 then [] else [j.inner.take j.firstInnerBatch]

theorem firstSent_frames (j : JoinCall) : j.firstSent.frames j = j.configurePacket := by
  unfold firstSent Sent.frames configurePacket
  split <;> rfl

theorem firstInnerBatch_le (j : JoinCall) :
    j.firstInnerBatch ≤ j.batch ∧ j.firstInnerBatch ≤ j.inner.length := by
  unfold firstInnerBatch
  split
  · omega
  · exact ⟨Nat.zero_le _, Nat.zero_le _⟩

theorem firstSent_building (j : JoinCall) (a : StatusPayload) :
    Building j j.firstSent (j.firstWindow a) [] := by
  obtain ⟨hbatch, hrows⟩ := j.firstInnerBatch_le
  refine ⟨?_, rfl, rfl, rfl⟩
  unfold firstSent firstWindow
  dsimp only
  split
  · exact .start j j.inner _
  next hne =>
    have hlen : (j.inner.take j.firstInnerBatch).length = j.firstInnerBatch := by
      rw [List.length_take]
      omega
    refine ⟨⟨by simp, hrows, ?_, [], by simp [hlen], rfl⟩, j.client.window_pos, Or.inl rfl, ?_⟩
    · intro c hc
      rw [List.mem_singleton.mp hc, hlen]
      omega
    · simp

/-- **Whatever the call has been answered, it has sent its frames in order.** -/
theorem exists_sent {es : List CEvent} {l : List (AckWaitKind × Option UInt8)} {ps : List Packet}
    (hpath : j.machine.Path .config es l ps st) :
    ∃ s : Sent, s.frames j = j.configurePacket ++ ps.flatten ∧
      s.Of j (j.acksIn CState.inBuild .config es) (j.acksIn CState.inProbe .config es) st := by
  have hfirst : j.firstSent.Of j [] [] .config := ⟨j.firstSent_building, rfl, rfl⟩
  obtain ⟨s, hframes, hof⟩ := goes_path_sent hpath hfirst
  rw [firstSent_frames] at hframes
  exact ⟨s, hframes, hof⟩

theorem Sent.Of.inOrder (h : s.Of j nb np st) : InOrder j s := by
  match st, h with
  | .config, h => exact (h.1 {}).inOrder
  | .build _, h => exact h.1.inOrder
  | .probe _ _, h => exact h.2.1.built.order
  | .probeEnd _, h => exact h.1.order
  | .final _, h => exact h.1.order
  | .reset _ _, h => exact h.1.order
  | .finished (.error _), h => exact h.1
  | .finished (.ok _), h => exact h.1.order

/-- The loops have taken at most as many answers as they have sent frames. -/
theorem Sent.Of.paid (h : s.Of j nb np st) :
    nb.length ≤ s.inners.length ∧ np.length ≤ s.outers.length := by
  match st, h with
  | .config, ⟨_, hnb, hnp⟩ => simp [hnb, hnp]
  | .build _, ⟨hloop, _, hnp⟩ => exact ⟨hloop.paid, by simp [hnp]⟩
  | .probe _ _, ⟨hnb, hloop, _⟩ => exact ⟨hnb, hloop.paid⟩
  | .probeEnd _, ⟨_, _, hnb, hnp⟩ => exact ⟨hnb, hnp⟩
  | .final _, ⟨_, _, hnb, hnp⟩ => exact ⟨hnb, hnp⟩
  | .reset _ _, ⟨_, hnb, hnp⟩ => exact ⟨hnb, hnp⟩
  | .finished (.error _), ⟨_, hnb, hnp⟩ => exact ⟨hnb, hnp⟩
  | .finished (.ok _), ⟨_, hnb, hnp⟩ => exact ⟨hnb, hnp⟩

/-! ## Parts of what is sent -/

theorem isPrefix_append_cases {α : Type} {l a b : List α} (h : l <+: a ++ b) :
    l <+: a ∨ ∃ m, l = a ++ m ∧ m <+: b := by
  rcases List.prefix_or_prefix_of_prefix h (List.prefix_append a b) with hle | ⟨m, rfl⟩
  · exact Or.inl hle
  · exact Or.inr ⟨m, rfl, (List.prefix_append_right_inj a).mp h⟩

/-- Leaving out frames at the end keeps the order. -/
theorem InOrder.mono (h : InOrder j s) {s' : Sent} (hin : s'.inners <+: s.inners)
    (hout : s'.outers <+: s.outers)
    (hall : s'.outers ≠ [] ∨ s'.marker = true →
      s'.inners = s.inners ∧ (s.outers ≠ [] ∨ s.marker = true)) : InOrder j s' := by
  refine ⟨hin.flatten.trans h.inner, hout.flatten.trans h.outer, ?_, ?_⟩
  · intro c hc
    apply h.size c
    rcases List.mem_append.mp hc with hc | hc
    · exact List.mem_append_left _ (hin.subset hc)
    · exact List.mem_append_right _ (hout.subset hc)
  · intro hlate
    obtain ⟨hsame, hlate'⟩ := hall hlate
    rw [hsame]
    exact h.late hlate'

/-- A first part of frames in order is in order. -/
theorem InOrder.of_isPrefix (h : InOrder j s) {fs : List HostFrame} (hfs : fs <+: s.frames j)
    (hne : fs ≠ []) : ∃ s' : Sent, fs = s'.frames j ∧ InOrder j s' := by
  obtain ⟨f, fs, rfl⟩ := List.exists_cons_of_ne_nil hne
  obtain ⟨rfl, hrest⟩ := List.cons_prefix_cons.mp hfs
  rcases isPrefix_append_cases hrest with hdata | ⟨m, rfl, hm⟩
  · rcases isPrefix_append_cases hdata with hrows | ⟨m, rfl, hm⟩
    · rcases isPrefix_append_cases hrows with hinner | ⟨m, rfl, hm⟩
      · obtain ⟨cs, hcs, rfl⟩ := List.prefix_map_iff.mp hinner
        refine ⟨{ inners := cs }, by simp [Sent.frames], h.mono hcs List.nil_prefix ?_⟩
        simp
      · obtain ⟨ds, hds, rfl⟩ := List.prefix_map_iff.mp hm
        refine ⟨{ inners := s.inners, outers := ds }, by simp [Sent.frames],
          h.mono (List.prefix_refl _) hds ?_⟩
        intro hlate
        refine ⟨rfl, Or.inl fun hnil => ?_⟩
        rw [hnil, List.prefix_nil] at hds
        simp [hds] at hlate
    · by_cases hmark : s.marker = true ∧ m ≠ []
      · obtain ⟨hmark, hmne⟩ := hmark
        rw [if_pos hmark] at hm
        have hm' : m = [.data .outer j.config.keyType []] := by
          rcases m with _ | ⟨x, m⟩
          · exact absurd rfl hmne
          · obtain ⟨rfl, hend⟩ := List.cons_prefix_cons.mp hm
            rw [List.prefix_nil.mp hend]
        refine ⟨{ inners := s.inners, outers := s.outers, marker := true },
          by simp [Sent.frames, hm'], h.mono (List.prefix_refl _) (List.prefix_refl _) ?_⟩
        exact fun _ => ⟨rfl, Or.inr hmark⟩
      · have hm' : m = [] := by
          by_cases hmk : s.marker = true
          · exact not_not.mp fun hx => hmark ⟨hmk, hx⟩
          · rw [if_neg hmk] at hm
            exact List.prefix_nil.mp hm
        refine ⟨{ inners := s.inners, outers := s.outers }, by simp [Sent.frames, hm'],
          h.mono (List.prefix_refl _) (List.prefix_refl _) ?_⟩
        exact fun hlate => ⟨rfl, Or.inl (hlate.elim id (by simp))⟩
  · obtain ⟨-, hm'⟩ := List.prefix_replicate_iff.mp hm
    refine ⟨{ s with resets := m.length }, ?_,
      h.mono (List.prefix_refl _) (List.prefix_refl _) fun hlate => ⟨rfl, hlate⟩⟩
    rw [hm']
    simp [Sent.frames]

end Paths

end JoinCall

/-! ## Retired frames -/

namespace CState

/-- The sizes of the frames that are in flight while the client waits. -/
def unretired (j : JoinCall) : CState → List Nat
  | .config => (j.firstWindow {}).inflight
  | .build v => v.inflight
  | .probe v _ => v.inflight
  | _ => []

/-- With this answer all inner rows have been sent, and all their frames are retired. -/
def AllRetired (j : JoinCall) (a : StatusPayload) : CState → Prop
  | .config => j.inner.length ≤ (j.firstWindow a).sent ∧ (j.firstWindow a).inflight = []
  | .build v =>
    let r := applyCumulativeAck { v with credit := a.credit.toNat } a.rowsProcessed
    j.inner.length ≤ r.2.sent ∧ r.2.inflight = []
  | _ => False

end CState

/-- An OUTER_DATA frame. -/
def HostFrame.IsOuter (f : HostFrame) : Prop := ∃ w ts, f = .data .outer w ts

namespace JoinCall

/-- One of the events is an answer that retires all inner frames, and no outer frame was sent
before it. -/
def RetiredBefore (j : JoinCall) (st : CState) (es : List CEvent) : Prop :=
  ∃ es₁ e es₂ l ps₁ st₁ a, es = es₁ ++ e :: es₂ ∧ j.machine.Path st es₁ l ps₁ st₁ ∧
    st₁.ack? j e = some a ∧ st₁.AllRetired j a ∧ ∀ f ∈ ps₁.flatten, ¬ f.IsOuter

section Retired

variable {j : JoinCall} {st st' : CState} {es : List CEvent}
  {l : List (AckWaitKind × Option UInt8)} {ps : List Packet}

theorem unretired_le (hpath : j.machine.Path .config es l ps st) :
    (st.unretired j).length ≤ j.window := by
  obtain ⟨s, -, hof⟩ := exists_sent hpath
  match st, hof with
  | .config, ⟨hloop, _, _⟩ => exact (hloop {}).loop.room
  | .build _, ⟨hloop, _, _⟩ => exact hloop.loop.room
  | .probe _ _, ⟨_, hloop, _⟩ => exact hloop.loop.room
  | .probeEnd _, _ => exact Nat.zero_le _
  | .final _, _ => exact Nat.zero_le _
  | .reset _ _, _ => exact Nat.zero_le _
  | .finished _, _ => exact Nat.zero_le _

theorem not_isOuter_cleanup (j : JoinCall) : ∀ f ∈ j.cleanupPackets.flatten, ¬ f.IsOuter := by
  unfold cleanupPackets
  split <;> simp [HostFrame.IsOuter]

theorem not_isOuter_windowPackets (j : JoinCall) (rows : List InputTuple) (v : Window) :
    ∀ f ∈ (j.windowPackets .inner rows v).flatten, ¬ f.IsOuter := by
  unfold windowPackets
  generalize j.window - v.inflight.length = slots
  induction slots generalizing v with
  | zero => simp [JoinCall.rowPackets]
  | succ slots ih =>
    unfold JoinCall.rowPackets
    cases v.next j.batch rows.length with
    | none => simp
    | some k => simpa [HostFrame.IsOuter] using ih (v.push k)

/-- A step of the build phase retires all inner frames, or it sends no outer frame and the
build phase goes on or the call ends. -/
theorem enterBuild_cases (j : JoinCall) (v : Window) :
    (j.inner.length ≤ v.sent ∧ v.inflight = []) ∨
      (∀ f ∈ (j.enterBuild v).1.flatten, ¬ f.IsOuter) ∧
        ((∃ v', (j.enterBuild v).2 = .build v') ∨ ∃ r, (j.enterBuild v).2 = .finished r) := by
  unfold enterBuild
  split
  · refine Or.inr ⟨?_, ?_⟩
    · intro f hf
      rw [CReaction.emit, List.flatten_append] at hf
      rcases List.mem_append.mp hf with hf | hf
      · exact j.not_isOuter_windowPackets _ _ f hf
      · split at hf
        · exact j.not_isOuter_cleanup f hf
        · simp at hf
    · rw [CReaction.emit]
      split
      · exact Or.inr ⟨_, rfl⟩
      · exact Or.inl ⟨_, rfl⟩
  next hend =>
    refine Or.inl ⟨Nat.not_lt.mp fun hlt => hend (Or.inl hlt), ?_⟩
    exact not_not.mp fun hne => hend (Or.inr hne)

/-- The same for every event. -/
theorem react_cases (hst : st = .config ∨ ∃ v, st = .build v) (e : CEvent) :
    (∃ a, st.ack? j e = some a ∧ st.AllRetired j a) ∨
      (∀ f ∈ (st.react j e).1.flatten, ¬ f.IsOuter) ∧
        (((st.react j e).2 = .config ∨ ∃ v, (st.react j e).2 = .build v) ∨
          ∃ r, (st.react j e).2 = .finished r) := by
  have hfail : ∀ x : ClientError, (∀ f ∈ (st.failure j x).1.flatten, ¬ f.IsOuter) ∧
      (((st.failure j x).2 = .config ∨ ∃ v, (st.failure j x).2 = .build v) ∨
        ∃ r, (st.failure j x).2 = .finished r) := by
    intro x
    rcases hst with rfl | ⟨v, rfl⟩
    · exact ⟨j.not_isOuter_cleanup, Or.inr ⟨_, rfl⟩⟩
    · exact ⟨j.not_isOuter_cleanup, Or.inr ⟨_, rfl⟩⟩
  cases e with
  | timeout => exact Or.inr (hfail _)
  | cut f n => exact Or.inr (hfail _)
  | frame f =>
    unfold CState.ack? CState.react CState.hear
    dsimp only
    cases j.heard st.kind f with
    | failure x => exact Or.inr (hfail x)
    | more pairs =>
      refine Or.inr ⟨by simp, Or.inl ?_⟩
      rcases hst with rfl | ⟨v, rfl⟩
      · exact Or.inl rfl
      · exact Or.inr ⟨v, rfl⟩
    | answer a =>
      have hlater : ∀ v, (∀ f ∈ (j.enterBuild v).1.flatten, ¬ f.IsOuter) ∧
          ((∃ v', (j.enterBuild v).2 = .build v') ∨ ∃ r, (j.enterBuild v).2 = .finished r) →
          (∀ f ∈ (j.enterBuild v).1.flatten, ¬ f.IsOuter) ∧
            (((j.enterBuild v).2 = .config ∨ ∃ v', (j.enterBuild v).2 = .build v') ∨
              ∃ r, (j.enterBuild v).2 = .finished r) :=
        fun v hv => ⟨hv.1, hv.2.imp Or.inr id⟩
      rcases hst with rfl | ⟨v, rfl⟩
      · exact (j.enterBuild_cases (j.firstWindow a)).imp (fun h => ⟨a, rfl, h⟩) (hlater _)
      · unfold CState.answer buildStep
        dsimp only
        split
        · exact Or.inr ⟨j.not_isOuter_cleanup, Or.inr ⟨_, rfl⟩⟩
        · exact (j.enterBuild_cases _).imp (fun h => ⟨a, rfl, h⟩) (hlater _)

/-- **Outer frames are only sent after all inner frames have been retired.** -/
theorem retiredBefore_of_outer (hpath : j.machine.Path st es l ps st')
    (hst : st = .config ∨ ∃ v, st = .build v) {f : HostFrame} (hf : f ∈ ps.flatten)
    (hout : f.IsOuter) : j.RetiredBefore st es := by
  induction hpath with
  | nil => simp at hf
  | @cons st st₁ st' e es l os os' hstep rest ih =>
    obtain ⟨-, -, hr⟩ := CState.step_eq_some.mp hstep
    rcases react_cases (j := j) hst e with ⟨a, ha, hret⟩ | ⟨hno, hnext⟩
    · exact ⟨[], e, es, [], [], st, a, rfl, .nil st, ha, hret, by simp⟩
    · rw [hr] at hno hnext
      rw [List.flatten_append] at hf
      have hf' : f ∈ os'.flatten := by
        rcases List.mem_append.mp hf with hf | hf
        · exact absurd hout (hno f hf)
        · exact hf
      rcases hnext with hnext | ⟨r, rfl⟩
      · obtain ⟨es₁, e', es₂, l', ps₁, st₂, a, rfl, hpath', ha, hret, hno'⟩ := ih hnext hf'
        refine ⟨e :: es₁, e', es₂, _, _, st₂, a, rfl, .cons hstep hpath', ha, hret, ?_⟩
        intro g hg
        rw [List.flatten_append] at hg
        rcases List.mem_append.mp hg with hg | hg
        · exact hno g hg
        · exact hno' g hg
      · obtain ⟨-, rfl, -⟩ := path_finished rest
        simp at hf'

end Retired

/-! ## The two results -/

section Results

variable {j : JoinCall} {fs : List TxFrame} {ins : List (AckWaitKind × Option UInt8)}
  {outs : List Packet} {q : CProc JoinResult}

/-- **The send discipline.** Whatever well-formed frames arrive and whatever waits time out, at
every moment of a call that has sent anything the frames sent so far are CONFIGURE with the
counts of the call, inner batches, outer batches, at most one marker and RESET, in this order;
the rows are in order. Outer frames are only sent after an answer that has retired all inner
frames. At every wait the frames in flight fit the window. -/
theorem send_discipline (hinner : j.inner.length < 2 ^ 32) (houter : j.outer.length < 2 ^ 32)
    (hrun : Runs j.runHashJoin ins outs q) (hfs : ∀ f ∈ fs, f.WellFormed)
    (hins : Side.reads ins <+: fs.flatMap TxFrame.bytes) (hsent : outs ≠ []) :
    ∃ (s : Sent) (es : List CEvent) (ps : List Packet) (st : CState),
      j.Standing ins outs q es ps st ∧ outs.flatten = s.frames j ∧ InOrder j s ∧
      (∀ c ∈ s.inners ++ s.outers, 1 ≤ c.length ∧ c.length ≤ min rxBufTuples j.batch) ∧
      j.configurePayload.innerCount.toNat = j.inner.length ∧
      j.configurePayload.outerCount.toNat = j.outer.length ∧
      (s.outers ≠ [] ∨ s.marker = true → j.RetiredBefore .config es) ∧
      ∀ es₁ l₁ ps₁ st₁, es₁ <+: es → j.machine.Path .config es₁ l₁ ps₁ st₁ →
        (st₁.unretired j).length ≤ j.window := by
  obtain ⟨es, ps, st, hstand, -⟩ := exists_standing hrun hfs hins hsent
  obtain ⟨l, hpath⟩ := hstand.path
  obtain ⟨outs', rfl, hle⟩ := hstand.sent
  obtain ⟨s₁, hframes, hof⟩ := exists_sent hpath
  have hprefix : (j.configurePacket :: outs').flatten <+: s₁.frames j := by
    rw [hframes, List.flatten_cons]
    exact (List.prefix_append_right_inj _).mpr hle.flatten
  have hne : (j.configurePacket :: outs').flatten ≠ [] := by
    rw [List.flatten_cons, ← firstSent_frames]
    simp [Sent.frames]
  obtain ⟨s, hs, horder⟩ := hof.inOrder.of_isPrefix hprefix hne
  refine ⟨s, es, ps, st, hstand, hs, horder, ?_, ?_, ?_, ?_, ?_⟩
  · intro c hc
    obtain ⟨hpos, hbatch⟩ := horder.size c hc
    exact ⟨hpos, le_min (hbatch.trans j.client.batch_le) hbatch⟩
  · exact UInt32.toNat_ofNat_of_lt' hinner
  · exact UInt32.toNat_ofNat_of_lt' houter
  · intro hlate
    -- an outer frame of `s` is one of the packets
    obtain ⟨f, hf, hout⟩ : ∃ f ∈ s.frames j, f.IsOuter := by
      rcases hlate with hne | hmark
      · obtain ⟨c, cs, hcs⟩ := List.exists_cons_of_ne_nil hne
        exact ⟨.data .outer j.config.keyType c, by simp [Sent.frames, hcs], _, _, rfl⟩
      · exact ⟨.data .outer j.config.keyType [], by simp [Sent.frames, hmark], _, _, rfl⟩
    rw [← hs, List.flatten_cons] at hf
    rcases List.mem_append.mp hf with hf | hf
    · rw [← firstSent_frames] at hf
      obtain ⟨w, ts, rfl⟩ := hout
      unfold firstSent Sent.frames at hf
      split at hf <;> simp at hf
    · exact retiredBefore_of_outer hpath (Or.inl rfl) (hle.flatten.subset hf) hout
  · exact fun es₁ l₁ ps₁ st₁ _ hpath₁ => unretired_le hpath₁

/-- A call with batches in both loops, at the wait for its last ACK. -/
theorem send_discipline_batchedCall :
    ∃ ins q, Runs batchedCall.runHashJoin ins (batchedCall.configurePacket :: batchedPackets) q ∧
      batchedCall.Rep batchedWait q ∧ Side.reads ins = batchedAnswers.flatMap TxFrame.bytes ∧
      ∃ (s : Sent) (es : List CEvent) (ps : List Packet) (st : CState),
        batchedCall.Standing ins (batchedCall.configurePacket :: batchedPackets) q es ps st ∧
        (batchedCall.configurePacket :: batchedPackets).flatten = s.frames batchedCall ∧
        InOrder batchedCall s ∧ s.outers ≠ [] ∧ batchedCall.RetiredBefore .config es := by
  obtain ⟨ins, q, hrun, hq, hreads⟩ := batchedCall_runs
  obtain ⟨s, es, ps, st, hstand, hframes, horder, -, -, -, hretired, -⟩ :=
    send_discipline (by decide) (by decide) hrun batchedAnswers_wellFormed (by rw [hreads])
      (by simp)
  have houters : s.outers ≠ [] := by
    intro hnone
    have hmem : HostFrame.data .outer .int32 [(3, ⟨1, 1⟩)] ∈ s.frames batchedCall := by
      rw [← hframes]
      decide
    simp [Sent.frames, hnone] at hmem
  exact ⟨ins, q, hrun, hq, hreads, s, es, ps, st, hstand, hframes, horder, houters,
    hretired (Or.inl houters)⟩

end Results

end JoinCall

end FpgaHashJoin
