import FpgaHashJoin.Host.Rounds
import FpgaHashJoin.Kernel.RowAccounting
import FpgaHashJoin.Link.Composition

/-!
# One frame at a time

Rules for schedules in which the kernel takes one frame and the client then hears what the
kernel has sent. `LeadsFrom` is a schedule in the middle of such a round.
-/

namespace FpgaHashJoin

open Process CreditWindow KState

/-! ## Batches as frames -/

namespace JoinCall

variable (j : JoinCall)

/-- The rows as the kernel reads them. -/
def arriving (rows : List InputTuple) : List InputTuple := rows.map j.config.keyType.wire

/-- The frames with the batches from `s` up to `s'`. -/
def chunkFrames (msg : DataMsg) (rows : List InputTuple) (s s' : Nat) : List HostFrame :=
  (List.range' s (s' - s)).map fun i => .data msg j.config.keyType (chunk rows j.batch i)

variable {j} (msg : DataMsg) (rows : List InputTuple) {m s t : Nat}

@[simp] theorem length_arriving : (j.arriving rows).length = rows.length := List.length_map ..

theorem flatten_chunkPackets (s s' : Nat) :
    (j.chunkPackets msg rows s s').flatten = j.chunkFrames msg rows s s' := by
  rw [chunkPackets, chunkFrames]
  induction List.range' s (s' - s) with
  | nil => rfl
  | cons i is ih => rw [List.map_cons, List.flatten_cons, ih, List.map_cons, List.singleton_append]

theorem chunkFrames_self (s : Nat) : j.chunkFrames msg rows s s = [] := by
  simp [chunkFrames]

theorem chunkFrames_cons (h : m < s) :
    j.chunkFrames msg rows m s =
      .data msg j.config.keyType (chunk rows j.batch m) :: j.chunkFrames msg rows (m + 1) s := by
  rw [chunkFrames, show s - m = s - (m + 1) + 1 by omega, List.range'_succ, List.map_cons]
  rfl

theorem chunkFrames_append (hmt : m ≤ t) (hts : t ≤ s) :
    j.chunkFrames msg rows m t ++ j.chunkFrames msg rows t s = j.chunkFrames msg rows m s := by
  have hrange : List.range' m (t - m) ++ List.range' t (s - t) = List.range' m (s - m) := by
    have happend : List.range' m (t - m) ++ List.range' (m + 1 * (t - m)) (s - t) =
        List.range' m (t - m + (s - t)) := List.range'_append
    rw [Nat.one_mul, show m + (t - m) = t by omega, show t - m + (s - t) = s - m by omega] at happend
    exact happend
  rw [chunkFrames, chunkFrames, chunkFrames, ← List.map_append, hrange]

/-- A batch as the kernel reads it. -/
theorem map_wire_chunk (i : Nat) :
    (chunk rows j.batch i).map j.config.keyType.wire = chunk (j.arriving rows) j.batch i := by
  rw [chunk, chunk, arriving, List.map_take, List.map_drop]

/-- The kernel takes a batch. -/
theorem dataRows_chunk {c : Conf} (hc : c.keyType = j.config.keyType) (i : Nat) :
    dataRows c j.config.keyType (chunk rows j.batch i) =
      some (chunk (j.arriving rows) j.batch i) := by
  have hlen : (chunk rows j.batch i).length ≤ rxBufTuples :=
    (List.length_take_le _ _).trans j.client.batch_le
  rw [dataRows, if_pos ⟨hc.symm, hlen⟩, map_wire_chunk]

end JoinCall

/-! ## Rounds -/

section Rounds

variable {j : JoinCall} {b : Build} {cst : CState} {way : List HostFrame} {kst : KState}
  {e : Outcome} {ps : List Packet} {kr : Reaction}

/-- The client waits in `cst` and has sent `ps`, which the kernel finds behind `way`; the kernel
has sent `kr.1` and waits in `kr.2`. -/
def LeadsFrom (j : JoinCall) (b : Build) (ps : List Packet) (cst : CState) (way : List HostFrame)
    (kr : Reaction) (e : Outcome) : Prop :=
  (∀ o ∈ kr.1, o.Sound) ∧
    ∃ ps' cst', Hears j cst kr.1 ps' cst' ∧ Leads j b cst' (way ++ (ps ++ ps').flatten) kr.2 e

/-- The kernel takes a frame. -/
theorem Leads.frame {f : HostFrame} (hst : ∀ x, cst ≠ .finished x)
    (hstep : step b kst (.frame f) = some kr) (h : LeadsFrom j b [] cst way kr e) :
    Leads j b cst (f :: way) kst e := by
  obtain ⟨hsound, ps', cst', hears, hleads⟩ := h
  have hplays : Plays b ([], kst) [f] kr.1 kr.2 := Plays.cons hstep (Plays.nil b kr)
  exact Leads.round hst hplays hsound hears hleads

/-- Everything has been heard. -/
theorem LeadsFrom.silent (h : Leads j b cst (way ++ ps.flatten) kst e) :
    LeadsFrom j b ps cst way ([], kst) e :=
  ⟨by simp, [], cst, .nil cst, by rwa [List.append_nil]⟩

/-- What the client has sent is under way. -/
theorem LeadsFrom.sent (h : LeadsFrom j b [] cst (way ++ ps.flatten) kr e) :
    LeadsFrom j b ps cst way kr e := by
  obtain ⟨hsound, ps', cst', hears, hleads⟩ := h
  refine ⟨hsound, ps', cst', hears, ?_⟩
  rwa [List.nil_append, List.append_assoc, ← List.flatten_append] at hleads

/-- The call has ended, and so has the session of the kernel. -/
theorem LeadsFrom.over {r : JoinResult} :
    LeadsFrom j b ps (.finished r) way (endSession b) (.returns r) :=
  ⟨by simp [endSession], [], .finished r, .finished r _, .finished r _⟩

/-- The client hears a frame. -/
theorem LeadsFrom.hear {o : KOut} (ho : o.Sound) (hst : ∀ x, cst ≠ .finished x)
    (h : LeadsFrom j b (ps ++ (cst.hearOut j o).1) (cst.hearOut j o).2 way kr e) :
    LeadsFrom j b ps cst way (.emit [o] kr) e := by
  obtain ⟨hsound, ps', cst', hears, hleads⟩ := h
  refine ⟨?_, (cst.hearOut j o).1 ++ ps', cst', .cons hst hears, ?_⟩
  · intro x hx
    rcases List.mem_cons.mp hx with rfl | hx
    · exact ho
    · exact hsound x hx
  · rwa [← List.append_assoc]

theorem JoinCall.heardOut_ack {a : StatusPayload} (ha : a.sessionId = j.activeSessionId)
    (kind : AckWaitKind) : j.heardOut kind (.ack a) = .answer a :=
  if_neg fun hother => hother.2 ha

theorem JoinCall.heardOut_status {a : StatusPayload} (ha : a.sessionId = j.activeSessionId)
    (kind : AckWaitKind) : j.heardOut kind (.status a) = .answer a :=
  if_neg fun hother => hother.2 ha

/-- The client hears an ACK of its session. -/
theorem LeadsFrom.ack {a : StatusPayload} (ha : a.sessionId = j.activeSessionId)
    (hst : ∀ x, cst ≠ .finished x)
    (h : LeadsFrom j b (ps ++ (cst.answer j a).1) (cst.answer j a).2 way kr e) :
    LeadsFrom j b ps cst way (.emit [.ack a] kr) e := by
  have hheard : cst.hearOut j (.ack a) = cst.answer j a := by
    rw [CState.hearOut, JoinCall.heardOut_ack ha]
    rfl
  refine LeadsFrom.hear trivial hst ?_
  rwa [hheard]

/-- The client hears a STATUS of its session. -/
theorem LeadsFrom.status {a : StatusPayload} (ha : a.sessionId = j.activeSessionId)
    (hst : ∀ x, cst ≠ .finished x)
    (h : LeadsFrom j b (ps ++ (cst.answer j a).1) (cst.answer j a).2 way kr e) :
    LeadsFrom j b ps cst way (.emit [.status a] kr) e := by
  have hheard : cst.hearOut j (.status a) = cst.answer j a := by
    rw [CState.hearOut, JoinCall.heardOut_status ha]
    rfl
  refine LeadsFrom.hear trivial hst ?_
  rwa [hheard]

/-- The client passes over a TIMING frame. -/
theorem LeadsFrom.timing (hst : ∀ x, cst ≠ .finished x) (h : LeadsFrom j b ps cst way kr e) :
    LeadsFrom j b ps cst way (.emit [.timing] kr) e := by
  have hheard : cst.hearOut j .timing = ([], cst) := by
    show cst.hear j (.more []) = _
    rw [CState.hear, CState.more_nil]
  refine LeadsFrom.hear trivial hst ?_
  rwa [hheard, List.append_nil]

/-- RESULT frames that the decoder accepts. -/
def SoundBatches (fs : List (List ResultPair)) : Prop :=
  ∀ f ∈ fs, f ≠ [] ∧ f.length ≤ txBufSize

/-- The client collects results. -/
theorem LeadsFrom.results {fs : List (List ResultPair)} (hfs : SoundBatches fs)
    {W : List ResultPair → CState} (hW : ∀ rs x, W rs ≠ .finished x)
    (hmore : ∀ rs pairs, (W rs).more pairs = W (rs ++ pairs)) {rs : List ResultPair}
    (h : LeadsFrom j b ps (W (rs ++ fs.flatten)) way kr e) :
    LeadsFrom j b ps (W rs) way (.emit (fs.map .results) kr) e := by
  induction fs generalizing rs with
  | nil => simpa using h
  | cons f fs ih =>
    have hemit : Reaction.emit ((f :: fs).map KOut.results) kr =
        .emit [.results f] (.emit (fs.map .results) kr) := rfl
    have hheard : (W rs).hearOut j (.results f) = ([], W (rs ++ f)) := by
      show ([], (W rs).more f) = _
      rw [hmore]
    rw [hemit]
    refine LeadsFrom.hear (hfs f List.mem_cons_self) (hW rs) ?_
    rw [hheard, List.append_nil]
    refine ih (fun g hg => hfs g (List.mem_cons_of_mem _ hg)) ?_
    rwa [List.append_assoc, ← List.flatten_cons]

/-- Results are collected in the probe phase. -/
theorem LeadsFrom.probeResults {fs : List (List ResultPair)} (hfs : SoundBatches fs) {v : Window}
    {rs : List ResultPair} (h : LeadsFrom j b ps (.probe v (rs ++ fs.flatten)) way kr e) :
    LeadsFrom j b ps (.probe v rs) way (.emit (fs.map .results) kr) e :=
  LeadsFrom.results (W := .probe v) hfs (fun _ _ => CState.noConfusion) (fun _ _ => rfl) h

/-- The pairs of a batch and its ACK, which the client answers with further batches. -/
theorem LeadsFrom.probeAck {fs : List (List ResultPair)} (hfs : SoundBatches fs)
    {a : StatusPayload} (ha : a.sessionId = j.activeSessionId) {v v' : Window}
    {rs : List ResultPair} {ps' : List Packet}
    (hreact : j.probeStep v (rs ++ fs.flatten) a = (ps', .probe v' (rs ++ fs.flatten)))
    (h : LeadsFrom j b (ps ++ ps') (.probe v' (rs ++ fs.flatten)) way kr e) :
    LeadsFrom j b ps (.probe v rs) way (.emit (fs.map .results) (.emit [.ack a] kr)) e := by
  refine LeadsFrom.probeResults hfs (LeadsFrom.ack ha (by simp) ?_)
  show LeadsFrom j b (ps ++ (j.probeStep v _ a).1) (j.probeStep v _ a).2 _ _ _
  rw [hreact]
  exact h

/-- Results are collected in the final wait. -/
theorem LeadsFrom.finalResults {fs : List (List ResultPair)} (hfs : SoundBatches fs)
    {rs : List ResultPair} (h : LeadsFrom j b ps (.final (rs ++ fs.flatten)) way kr e) :
    LeadsFrom j b ps (.final rs) way (.emit (fs.map .results) kr) e :=
  LeadsFrom.results (W := .final) hfs (fun _ _ => CState.noConfusion) (fun _ _ => rfl) h

end Rounds

/-! ## The ACK of a batch -/

/-- The counters of an ACK are those of the batches it covers. -/
theorem acks_dataAck {j : JoinCall} {rows : List InputTuple} (c : Conf) (phase : Phase)
    (matched t : Nat) (hlen : rows.length < 2 ^ 32) :
    j.Acks rows t
      { phase := phase.code
        sessionId := c.sessionId
        credit := creditFor (subU32 rows.length (itemsUpTo j.batch rows.length t))
        rowsProcessed := UInt32.ofNat (itemsUpTo j.batch rows.length t)
        rowsMatched := UInt32.ofNat matched } := by
  have hle : itemsUpTo j.batch rows.length t ≤ rows.length := min_le_right _ _
  refine ⟨UInt32.toNat_ofNat_of_lt' (hle.trans_lt hlen), ?_⟩
  rw [toNat_creditFor, subU32_eq hle hlen]

end FpgaHashJoin
