import FpgaHashJoin.Kernel.GraceSession
import FpgaHashJoin.Link.LinearSession

/-!
# A call with Algorithm B

The schedule of a call with Algorithm B. The kernel acknowledges every DATA frame, so a client
with any window has the frame under way that the kernel waits for. Both phases are instances of
one lemma, `distribution_leads`; the pairs are sent behind the last ACK, in the final wait of the
client.
-/

namespace FpgaHashJoin

open Process CreditWindow KState EquiJoin GraceHashEngine

/-! ## A phase in which every frame is acknowledged -/

/-- What an ACK of a DATA frame says. -/
def ackPayload (c : Conf) (phase : Phase) (total processed : Nat) : StatusPayload where
  phase := phase.code
  sessionId := c.sessionId
  credit := creditFor (subU32 total processed)
  rowsProcessed := UInt32.ofNat processed
  rowsMatched := UInt32.ofNat 0

/-- The states `W v` of the client wait for the ACKs of the rows: an ACK of all batches leads to
`fin`, an ACK of fewer ones to further batches. -/
structure Collects (j : JoinCall) (msg : DataMsg) (rows : List InputTuple) (phase : Phase)
    (W : Window → CState) (fin : StatusPayload → CReaction) : Prop where
  kind : ∀ v, (W v).kind ≠ .reset
  answer : ∀ {m s t : Nat} {v : Window} {ack : StatusPayload},
    CreditWindow.Aligned j.batch rows.length m s v → s ≤ m + j.window → m < t → t ≤ s →
    j.Acks rows t ack → ack.phase = phase.code →
    if t = batchCount j.batch rows.length then (W v).answer j ack = fin ack
    else ∃ v' s', (W v).answer j ack = (j.chunkPackets msg rows s s', W v') ∧
      CreditWindow.Aligned j.batch rows.length t s' v' ∧ s ≤ s' ∧ s' ≤ t + j.window ∧
      j.ahead rows t ≤ s'

section Grace

variable {j : JoinCall} {b : Build} {c : Conf}

theorem collects_build : Collects j .inner j.inner .building .build fun _ => j.enterProbe {} where
  kind := fun _ => by simp [CState.kind]
  answer := fun h hopen hmt hts hack _ => JoinCall.buildStep_aligned h hopen hmt hts hack

theorem collects_probe :
    Collects j .outer j.outer .probing (fun v => .probe v []) (j.probeEndStep []) where
  kind := fun _ => by simp [CState.kind]
  answer := fun h hopen hmt hts hack hphase =>
    JoinCall.probeStep_aligned h hopen hmt hts hack (by rw [hphase]; exact probing_ne_done) []

/-- A client that waits does not have its result. -/
theorem ne_finished_of_kind {cst : CState} (h : cst.kind ≠ .reset) (r : JoinResult) :
    cst ≠ .finished r := by
  rintro rfl
  exact h rfl

/-- **A phase of Algorithm B.** Whatever part of it is over, the call leads to an outcome with the
property `Q` if it does so from the end of the phase. -/
theorem distribution_leads {Q : Outcome → Prop} {d : Distribution b c} {rows : List InputTuple}
    {W : Window → CState} {fin : StatusPayload → CReaction}
    (hc : Collects j d.msg rows d.phase W fin) (hbound : d.LoopSuffices)
    (hsession : c.sessionId = j.activeSessionId) (hkey : c.keyType = j.config.keyType)
    (htotal : d.total = rows.length) (hlen : rows.length < 2 ^ 32) (hwire : j.arriving rows = rows)
    (hfinish : partsFit c d.limit rows →
      ∃ e, LeadsFrom j b (fin (ackPayload c d.phase rows.length rows.length)).1
        (fin (ackPayload c d.phase rows.length rows.length)).2 [] (d.finish rows) e ∧ Q e)
    (hover : ¬ partsFit c d.limit rows → Q overflowed)
    {m s : Nat} {v : Window} (h : CreditWindow.Aligned j.batch rows.length m s v)
    (hopen : s ≤ m + j.window) (hmore : m < batchCount j.batch rows.length)
    (hahead : j.ahead rows m ≤ s) :
    ∃ e, Leads j b (W v) (j.chunkFrames d.msg rows m s) (d.waiting m (rows.take (m * j.batch))) e ∧
      Q e := by
  have hb : 0 < j.batch := j.client.batch_pos
  induction hk : batchCount j.batch rows.length - m generalizing m s v with
  | zero => omega
  | succ k ih =>
    have hms : m < s := (JoinCall.lt_ahead hmore).trans_le hahead
    have hlast := h.le_batchCount hb
    have htaken : rows.take (m * j.batch) ++ chunk rows j.batch m = rows.take ((m + 1) * j.batch) :=
      (take_succ_chunk rows j.batch m).symm
    have hprocessed : (rows.take ((m + 1) * j.batch)).length =
        itemsUpTo j.batch rows.length (m + 1) := length_take_chunks _ _ _
    have hdata : dataRows c c.keyType (chunk rows j.batch m) = some (chunk rows j.batch m) := by
      have hrows := JoinCall.dataRows_chunk (j := j) rows hkey m
      rwa [hwire, ← hkey] at hrows
    have hstep := d.step_eq m (rows.take (m * j.batch)) hdata
    rw [hkey, htaken, hprocessed, htotal] at hstep
    rw [JoinCall.chunkFrames_cons _ _ hms]
    by_cases hfit : partsFit c d.limit (rows.take ((m + 1) * j.batch))
    · rw [if_pos hfit] at hstep
      have hacks := acks_dataAck (j := j) c d.phase 0 (m + 1) hlen
      have hanswer := hc.answer h hopen (Nat.lt_succ_self m) hms hacks rfl
      by_cases hall : m + 1 = batchCount j.batch rows.length
      · -- the last batch: the phase is over
        rw [if_pos hall] at hanswer
        have hnot := (lt_batchCount (n := rows.length) (i := m + 1) hb).not.mp (by omega)
        have hfull : rows.take ((m + 1) * j.batch) = rows := List.take_of_length_le (by omega)
        have hitems : itemsUpTo j.batch rows.length (m + 1) = rows.length := min_eq_right (by omega)
        rw [hfull, hitems, d.enter_eq, if_neg (by omega)] at hstep
        rw [hfull] at hfit
        rw [hitems] at hanswer
        obtain ⟨e, hleads, he⟩ := hfinish hfit
        refine ⟨e, Leads.frame (ne_finished_of_kind (hc.kind v)) hstep
          (LeadsFrom.ack hsession (ne_finished_of_kind (hc.kind v)) ?_), he⟩
        rw [hanswer, show s = m + 1 by omega, JoinCall.chunkFrames_self]
        exact hleads
      · rw [if_neg hall] at hanswer
        obtain ⟨v', s', hreact, haligned, hle, hopen', hahead'⟩ := hanswer
        obtain ⟨e, hleads, he⟩ := ih haligned hopen' (by omega) hahead' (by omega)
        have hwait : d.enter (m + 1) (rows.take ((m + 1) * j.batch)) =
            ([], d.waiting (m + 1) (rows.take ((m + 1) * j.batch))) := by
          have hrow : (m + 1) * j.batch < rows.length := (lt_batchCount hb).mp (by omega)
          have hitems := itemsUpTo_of_lt hrow
          have hframe : m + 1 ≤ (m + 1) * j.batch := Nat.le_mul_of_pos_right _ hb
          rw [d.enter_eq, if_pos]
          exact ⟨hbound _ _ (by omega) (by omega) fun _ => hfit, by omega⟩
        rw [hwait] at hstep
        refine ⟨e, Leads.frame (ne_finished_of_kind (hc.kind v)) hstep
          (LeadsFrom.ack hsession (ne_finished_of_kind (hc.kind v)) ?_), he⟩
        show LeadsFrom j b ([] ++ ((W v).answer j _).1) ((W v).answer j _).2 _ _ _
        rw [hreact]
        refine LeadsFrom.silent ?_
        rw [List.nil_append, JoinCall.flatten_chunkPackets,
          JoinCall.chunkFrames_append _ _ (by omega) hle]
        exact hleads
    · -- a partition is too large
      rw [if_neg hfit] at hstep
      refine ⟨_, Leads.frame (ne_finished_of_kind (hc.kind v)) hstep
        (leads_error _ _ (hc.kind v)), hover fun hall => hfit ?_⟩
      exact partsFit_sublist hall (List.take_sublist _ _)

/-! ## The pairs -/

/-- The RESULT frames of the partitions, and the error of the first one that does not fit. -/
theorem joinParts_results (inner outer : List InputTuple) (ps : List Nat) :
    ∃ fs, SoundBatches fs ∧
      if ∀ p ∈ ps, LinearHashTable.fits (partRows c p inner) then
        joinParts c inner outer ps = (fs.map .results, true) ∧
          fs.flatten = ps.flatMap (partJoin c inner outer)
      else joinParts c inner outer ps =
        (fs.map .results ++ [.error FpgaError.overflow.code], false) := by
  induction ps with
  | nil => exact ⟨[], by simp [SoundBatches], by simp [joinParts]⟩
  | cons p ps ih =>
    obtain ⟨fs, hsound, hrest⟩ := ih
    by_cases hp : LinearHashTable.fits (partRows c p inner)
    · refine ⟨Batching.batches txBufSize (partJoin c inner outer p) ++ fs, ?_, ?_⟩
      · intro f hf
        rcases List.mem_append.mp hf with hf | hf
        · have hlen := Batching.batches_length (by decide) (partJoin c inner outer p) f hf
          exact ⟨List.length_pos_iff.mp hlen.1, hlen.2⟩
        · exact hsound f hf
      · have hall : (∀ q ∈ p :: ps, LinearHashTable.fits (partRows c q inner)) ↔
            ∀ q ∈ ps, LinearHashTable.fits (partRows c q inner) := by
          simp [hp]
        simp only [hall, joinParts, if_pos hp]
        split
        next h =>
          rw [if_pos h] at hrest
          rw [hrest.1, List.map_append, List.flatten_append, Batching.batches_flatten, hrest.2]
          exact ⟨rfl, (List.flatMap_cons ..).symm⟩
        next h =>
          rw [if_neg h] at hrest
          rw [hrest, List.map_append, List.append_assoc]
    · refine ⟨[], by simp [SoundBatches], ?_⟩
      rw [if_neg fun h => hp (h p List.mem_cons_self), joinParts, if_neg hp]
      rfl

/-- What the last phase comes to. -/
def PairsReported (c : Conf) (inner outer : List InputTuple) (e : Outcome) : Prop :=
  if ∀ p < c.K, LinearHashTable.fits (partRows c p inner) then
    ∃ rs, e = .returns (.ok rs) ∧ rs.Perm (join inner outer)
  else e = overflowed

/-- The partitions are joined while the client is in its final wait. -/
theorem finish_leads (hsession : c.sessionId = j.activeSessionId) (hK : 0 < c.K)
    (inner : List InputTuple) {outer : List InputTuple} (hlen : outer.length < 2 ^ 32) :
    ∃ e, LeadsFrom j b [] (.final []) [] (graceFinish b c inner outer) e ∧
      PairsReported c inner outer e := by
  obtain ⟨fs, hsound, hparts⟩ := joinParts_results (c := c) inner outer (List.range c.K)
  have hall : (∀ p ∈ List.range c.K, LinearHashTable.fits (partRows c p inner)) ↔
      ∀ p < c.K, LinearHashTable.fits (partRows c p inner) := by
    simp only [List.mem_range]
  have hperm := parts_perm inner outer hK
  unfold PairsReported graceFinish
  by_cases hfit : ∀ p < c.K, LinearHashTable.fits (partRows c p inner)
  · rw [if_pos (hall.mpr hfit)] at hparts
    obtain ⟨hjoin, hpairs⟩ := hparts
    have hfew : ((List.range c.K).flatMap (partJoin c inner outer)).length < 2 ^ 32 := by
      rw [hperm.length_eq]
      exact (length_join_le _ _).trans_lt hlen
    refine ⟨.returns (.ok fs.flatten), ?_, ?_⟩
    · simp only [hjoin, if_true]
      exact LeadsFrom.finalResults hsound
        (leads_final hsession [] fs.flatten [] 0 (by rw [hpairs]) hfew)
    · rw [if_pos hfit]
      refine ⟨_, rfl, ?_⟩
      rw [hpairs]
      exact hperm
  · rw [if_neg fun h => hfit (hall.mp h)] at hparts
    refine ⟨overflowed, ?_, by rw [if_neg hfit]⟩
    simp only [hparts, Bool.false_eq_true, if_false]
    rw [← Reaction.emit_emit]
    exact LeadsFrom.finalResults hsound (leads_error _ _ (by simp [CState.kind]))

/-! ## The whole call -/

namespace JoinCall

/-- The configuration that the kernel has accepted. -/
def graceConf (j : JoinCall) (K outerSlotW : Nat) : Conf :=
  ⟨j.activeSessionId, j.config.keyType, j.inner.length, j.outer.length, K, outerSlotW⟩

/-- With Algorithm B the client goes to the final wait when all rows are acknowledged. -/
theorem probeEndStep_grace (halg : j.config.algorithm = AlgorithmType.algorithmB.code)
    {ack : StatusPayload} (hphase : ack.phase = Phase.probing.code) :
    j.probeEndStep [] ack = ([], .final []) := by
  have hother : ¬ j.config.algorithm = AlgorithmType.algorithmA.code := by
    rw [halg]
    decide
  have hdone : ack.phase ≠ Phase.done.code := by
    rw [hphase]
    exact probing_ne_done
  rw [probeEndStep, if_neg fun h => hother h.1, completeStep, if_neg fun h => hother h.2.2.1,
    if_pos hdone]

end JoinCall

variable {K outerSlotW : Nat}

/-- What CONFIGURE has checked. -/
theorem graceConf_admitted (hlen : j.outer.length < 2 ^ 32)
    (hcheck : checkConfigure AlgorithmType.algorithmB.code j.inner.length j.outer.length =
      .ok (K, outerSlotW)) : GraceAdmitted (j.graceConf K outerSlotW) := by
  obtain ⟨hpos, hle, hmemory⟩ := checkConfigure_grace hcheck
  obtain ⟨hinner, hslots⟩ := checkConfigure_slots hcheck
  exact ⟨hpos, hle, hmemory, hinner, hslots, hlen⟩

/-- The kernel accepts the configuration of the call. -/
theorem grace_taken (halg : j.config.algorithm = AlgorithmType.algorithmB.code)
    (hlen : j.outer.length < 2 ^ 32)
    (hcheck : checkConfigure AlgorithmType.algorithmB.code j.inner.length j.outer.length =
      .ok (K, outerSlotW)) :
    step b .idle (.frame (.configure j.configurePayload)) =
      some (.emit [.ack j.configureAck] (enterGraceBuild b (j.graceConf K outerSlotW) 0 [])) := by
  have hmany : j.inner.length ≤ graceMaxInnerRows := (graceConf_admitted hlen hcheck).inner
  rw [graceMaxInnerRows_eq] at hmany
  rw [← halg] at hcheck
  have hstep := configure_answered (b := b) (by omega) hlen hcheck
  rwa [if_pos halg] at hstep

/-- The probe phase of Algorithm B from its start. -/
theorem grace_probe_starts (halg : j.config.algorithm = AlgorithmType.algorithmB.code)
    (hlen : j.outer.length < 2 ^ 32) (hwire : j.arriving j.outer = j.outer)
    (hadm : GraceAdmitted (j.graceConf K outerSlotW)) (inner : List InputTuple) {Q : Outcome → Prop}
    (hpairs : partsFit (j.graceConf K outerSlotW) (outerSlotW / graceWordsPerTuple) j.outer →
      ∀ e, PairsReported (j.graceConf K outerSlotW) inner j.outer e → Q e)
    (hover : ¬ partsFit (j.graceConf K outerSlotW) (outerSlotW / graceWordsPerTuple) j.outer →
      Q overflowed) :
    ∃ e, LeadsFrom j b (j.enterProbe {}).1 (j.enterProbe {}).2 []
      (enterGraceProbe b (j.graceConf K outerSlotW) 0 inner []) e ∧ Q e := by
  set d := outerDistribution b (j.graceConf K outerSlotW) inner with hd
  have htotal : d.total = j.outer.length := rfl
  have henter : enterGraceProbe b (j.graceConf K outerSlotW) 0 inner [] = d.enter 0 [] := rfl
  rw [henter, d.enter_eq]
  by_cases hnil : j.outer = []
  · have hnone : d.total = 0 := by rw [htotal, hnil]; rfl
    rw [JoinCall.enterProbe_nil hnil, if_neg (by simp [hnone])]
    obtain ⟨e, hleads, he⟩ := finish_leads (j := j) (b := b) (c := j.graceConf K outerSlotW) rfl
      hadm.K_pos inner (show ([] : List InputTuple).length < 2 ^ 32 by decide)
    refine ⟨e, hleads, hpairs ?_ e (by rw [hnil]; exact he)⟩
    rw [hnil]
    intro p _
    exact Nat.zero_le _
  · have hpos : 0 < j.outer.length := List.length_pos_iff.mpr hnil
    have hmore : 0 < batchCount j.batch j.outer.length := JoinCall.batchCount_pos.mpr hnil
    obtain ⟨v, s, hclient, haligned, hopen, hahead⟩ := JoinCall.enterProbe_starts hmore
    rw [hclient, if_pos ⟨Nat.zero_le _, hpos⟩]
    set ack := ackPayload (j.graceConf K outerSlotW) d.phase j.outer.length j.outer.length
    have hfinish : partsFit (j.graceConf K outerSlotW) d.limit j.outer →
        ∃ e, LeadsFrom j b (j.probeEndStep [] ack).1 (j.probeEndStep [] ack).2 []
          (d.finish j.outer) e ∧ Q e := by
      intro hfit
      rw [JoinCall.probeEndStep_grace halg (show ack.phase = Phase.probing.code from rfl)]
      obtain ⟨e, hleads, he⟩ := finish_leads (j := j) (b := b) (c := j.graceConf K outerSlotW) rfl
        hadm.K_pos inner hlen
      exact ⟨e, hleads, hpairs hfit e he⟩
    obtain ⟨e, hleads, he⟩ := distribution_leads (d := d) collects_probe
      (outer_loopSuffices hadm inner) rfl rfl rfl hlen hwire hfinish hover haligned hopen hmore
      hahead
    refine ⟨e, LeadsFrom.silent ?_, he⟩
    rw [List.nil_append, JoinCall.flatten_chunkPackets]
    rw [Nat.zero_mul, List.take_zero] at hleads
    exact hleads

/-- What a call with Algorithm B comes to. -/
def GraceReported (j : JoinCall) (c : Conf) (e : Outcome) : Prop :=
  if GraceFits c j.inner j.outer then
    ∃ rs, e = .returns (.ok rs) ∧ rs.Perm (join j.inner j.outer)
  else e = overflowed

/-- **A call with Algorithm B.** Whatever the build of the kernel and the window of the client, the
call comes to an end: with all pairs if the partitions fit, and with the error of the kernel if
they do not. -/
theorem grace_leads (halg : j.config.algorithm = AlgorithmType.algorithmB.code)
    (hlen : j.outer.length < 2 ^ 32)
    (hcheck : checkConfigure AlgorithmType.algorithmB.code j.inner.length j.outer.length =
      .ok (K, outerSlotW)) (hinner : j.arriving j.inner = j.inner)
    (houter : j.arriving j.outer = j.outer) :
    ∃ e, Leads j b .config j.configurePacket .idle e ∧
      GraceReported j (j.graceConf K outerSlotW) e := by
  have hadm := graceConf_admitted hlen hcheck
  have hmany : j.inner.length ≤ graceMaxInnerRows := hadm.inner
  rw [graceMaxInnerRows_eq] at hmany
  have hstep := grace_taken (b := b) halg hlen hcheck
  have hunfit : ∀ {P : Prop}, ¬ P → (GraceFits (j.graceConf K outerSlotW) j.inner j.outer → P) →
      GraceReported j (j.graceConf K outerSlotW) overflowed := by
    intro P hP himp
    rw [GraceReported, if_neg fun h => hP (himp h)]
  -- the probe phase, once the inner rows are distributed
  have hprobe : partsFit (j.graceConf K outerSlotW) htMaxRows j.inner →
      ∃ e, LeadsFrom j b (j.enterProbe {}).1 (j.enterProbe {}).2 []
        (enterGraceProbe b (j.graceConf K outerSlotW) 0 j.inner []) e ∧
        GraceReported j (j.graceConf K outerSlotW) e := by
    intro hfirst
    refine grace_probe_starts halg hlen houter hadm j.inner (fun hsecond e he => ?_)
      fun hfull => hunfit hfull fun h => h.2.1
    unfold PairsReported at he
    split at he
    next hparts => rwa [GraceReported, if_pos ⟨hfirst, hsecond, hparts⟩]
    next hparts =>
      subst he
      exact hunfit hparts fun h => h.2.2
  set d := innerDistribution b (j.graceConf K outerSlotW) with hd
  have henter : enterGraceBuild b (j.graceConf K outerSlotW) 0 [] = d.enter 0 [] := rfl
  rw [henter, d.enter_eq] at hstep
  by_cases hrows : j.inner = []
  · have hnil : ¬ 0 < batchCount j.batch j.inner.length :=
      JoinCall.batchCount_pos.not.mpr (not_not.mpr hrows)
    have hnone : d.total = 0 := by
      show j.inner.length = 0
      rw [hrows]
      rfl
    rw [if_neg (by simp [hnone])] at hstep
    obtain ⟨e, hleads, he⟩ := hprobe (by
      rw [hrows]
      intro p _
      exact Nat.zero_le _)
    rw [hrows] at hleads
    exact ⟨e, configured_leads_nil hstep (by omega) hleads, he⟩
  · have hmore : 0 < batchCount j.batch j.inner.length := JoinCall.batchCount_pos.mpr hrows
    rw [if_pos ⟨Nat.zero_le _, List.length_pos_iff.mpr hrows⟩] at hstep
    obtain ⟨v, s, haligned, hopen, hahead, hconfig⟩ := configured_leads hstep hmore
    obtain ⟨e, hleads, he⟩ := distribution_leads (d := d) collects_build (inner_loopSuffices hadm) rfl
      rfl rfl (by omega) hinner hprobe (fun hfull => hunfit hfull fun h => h.1) haligned hopen hmore
      hahead
    rw [Nat.zero_mul, List.take_zero] at hleads
    refine ⟨e, hconfig (LeadsFrom.silent ?_), he⟩
    rwa [List.flatten_nil, List.append_nil]

end Grace

end FpgaHashJoin
