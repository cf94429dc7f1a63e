import FpgaHashJoin.Link.Rounds

/-!
# A call with Algorithm A

The schedule of a call with Algorithm A, frame by frame. In each phase the client has `s`
batches sent and `a` acknowledged, and the kernel has taken `p` batches since its last ACK,
where `p` is 0 or 1. If the window holds two batches, the client always has sent the batch that
the kernel waits for: this is the relation between window, credit and parity on which progress
rests.
-/

namespace FpgaHashJoin

open Process CreditWindow KState EquiJoin

namespace JoinCall

variable (j : JoinCall)

/-- The configuration that the kernel has accepted. -/
def linearConf : Conf :=
  ⟨j.activeSessionId, j.config.keyType, j.inner.length, j.outer.length, 1, 0⟩

/-- The pairs of the call, by the keys that arrive at the kernel. -/
def reference : List ResultPair := join (j.arriving j.inner) (j.arriving j.outer)

/-- What the call comes to when the kernel does not run out of space and frames. -/
def Reports (r : JoinResult) : Prop :=
  LinearHashTable.fits (j.arriving j.inner) →
    batchCount j.batch j.outer.length ≤ maxProbeFrames → r = .ok j.reference

end JoinCall

section Linear

variable {j : JoinCall} {b : Build}

/-- The call ends with the error that the kernel reports. -/
theorem leads_error {cst : CState} {code : UInt8} (ps : List Packet) (way : List HostFrame)
    (hst : cst.kind ≠ .reset) :
    LeadsFrom j b ps cst way (.emit [.error code] (endSession b))
      (.returns (.error (.fpgaError code))) := by
  have hfail : (cst.hearOut j (.error code)).2 = .finished (.error (.fpgaError code)) := by
    cases cst <;> first | rfl | simp [CState.kind] at hst
  have hne : ∀ x, cst ≠ .finished x := by
    rintro x rfl
    simp [CState.kind] at hst
  refine LeadsFrom.hear trivial hne ?_
  rw [hfail]
  exact LeadsFrom.over

/-! ## Build phase -/

/-- One batch of the build phase. -/
theorem build_taken {i p : Nat} (hi : i * j.batch < j.inner.length) :
    step b (.build j.linearConf i p ((j.arriving j.inner).take (i * j.batch)))
        (.frame (.data .inner j.config.keyType (chunk j.inner j.batch i))) =
      some (if LinearHashTable.fits ((j.arriving j.inner).take ((i + 1) * j.batch)) then
        if ackBatchFrames ≤ p + 1 ∨ i + 1 = batchCount j.batch j.inner.length then
          .emit [dataAck j.linearConf .building j.inner.length
              (itemsUpTo j.batch j.inner.length (i + 1)) 0]
            (enterBuild b j.linearConf (i + 1) 0 ((j.arriving j.inner).take ((i + 1) * j.batch)))
        else enterBuild b j.linearConf (i + 1) (p + 1)
          ((j.arriving j.inner).take ((i + 1) * j.batch))
      else .emit [.error FpgaError.overflow.code] (endSession b)) := by
  have hb : 0 < j.batch := j.client.batch_pos
  have hlen : ((j.arriving j.inner).take ((i + 1) * j.batch)).length =
      itemsUpTo j.batch j.inner.length (i + 1) := by
    rw [length_take_chunks, JoinCall.length_arriving]
  have hall : j.inner.length ≤ itemsUpTo j.batch j.inner.length (i + 1) ↔
      i + 1 = batchCount j.batch j.inner.length := by
    have hlt := lt_batchCount (n := j.inner.length) (i := i) hb
    have hlt' := lt_batchCount (n := j.inner.length) (i := i + 1) hb
    unfold itemsUpTo
    omega
  have hstep : step b (.build j.linearConf i p ((j.arriving j.inner).take (i * j.batch)))
      (.frame (.data .inner j.config.keyType (chunk j.inner j.batch i))) =
      some (buildStep b j.linearConf i p ((j.arriving j.inner).take (i * j.batch))
        (chunk (j.arriving j.inner) j.batch i)) := by
    rw [step, JoinCall.dataRows_chunk j.inner rfl]
    rfl
  rw [hstep]
  have htotal : j.linearConf.innerTotal = j.inner.length := rfl
  simp only [buildStep, ← take_succ_chunk, hlen, htotal, hall]

/-- The build phase goes on, or the probe phase begins. -/
theorem enterBuild_taken {i p : Nat} (hcap : j.inner.length ≤ htMaxRows)
    (hi : i ≤ batchCount j.batch j.inner.length) :
    enterBuild b j.linearConf i p ((j.arriving j.inner).take (i * j.batch)) =
      if i = batchCount j.batch j.inner.length then
        enterProbe b j.linearConf 0 0 (j.arriving j.inner) [] []
      else ([], .build j.linearConf i p ((j.arriving j.inner).take (i * j.batch))) := by
  have hb : 0 < j.batch := j.client.batch_pos
  have hlt := lt_batchCount (n := j.inner.length) (i := i) hb
  have hlen : ((j.arriving j.inner).take (i * j.batch)).length =
      itemsUpTo j.batch j.inner.length i := by
    rw [length_take_chunks, JoinCall.length_arriving]
  have htotal : j.linearConf.innerTotal = j.inner.length := rfl
  have hmul : i ≤ i * j.batch := Nat.le_mul_of_pos_right i hb
  unfold enterBuild
  rw [hlen, htotal]
  unfold itemsUpTo
  by_cases hall : i = batchCount j.batch j.inner.length
  · rw [if_pos hall, if_neg (by omega),
      List.take_of_length_le (by rw [JoinCall.length_arriving]; omega)]
  · rw [if_neg hall, if_pos (by omega)]

/-- The table of the kernel has no room for the inner rows. -/
def overflowed : Outcome := .returns (.error (.fpgaError FpgaError.overflow.code))

/-- **The build phase.** Whatever part of it is over, the call leads to an outcome with the
property `Q` if it does so from the start of the probe phase. -/
theorem build_leads {Q : Outcome → Prop} (hcap : j.inner.length ≤ htMaxRows)
    (hpace : j.Paced j.inner)
    (hprobe : LinearHashTable.fits (j.arriving j.inner) →
      ∃ e, LeadsFrom j b (j.enterProbe {}).1 (j.enterProbe {}).2 []
        (enterProbe b j.linearConf 0 0 (j.arriving j.inner) [] []) e ∧ Q e)
    (hover : ¬ LinearHashTable.fits (j.arriving j.inner) → Q overflowed)
    {a p s : Nat} {v : Window} (h : CreditWindow.Aligned j.batch j.inner.length a s v) (hp : p ≤ 1)
    (hopen : s ≤ a + j.window) (hmore : a + p < batchCount j.batch j.inner.length)
    (hahead : j.ahead j.inner a ≤ s) :
    ∃ e, Leads j b (.build v) (j.chunkFrames .inner j.inner (a + p) s)
      (.build j.linearConf (a + p) p ((j.arriving j.inner).take ((a + p) * j.batch))) e ∧
      Q e := by
  have hb : 0 < j.batch := j.client.batch_pos
  have hbuf : htMaxRows = 12288 := rfl
  induction hk : batchCount j.batch j.inner.length - (a + p) using Nat.strong_induction_on
    generalizing a p s v with
  | _ k ih =>
    have hrow := (lt_batchCount hb).mp hmore
    have hlast := h.le_batchCount hb
    have htwo := hpace.ahead_eq a
    rw [JoinCall.chunkFrames_cons _ _ (show a + p < s by omega)]
    have hstep := build_taken (b := b) (p := p) hrow
    by_cases hfits : LinearHashTable.fits ((j.arriving j.inner).take ((a + p + 1) * j.batch))
    · rw [if_pos hfits, enterBuild_taken hcap hmore, enterBuild_taken hcap hmore] at hstep
      by_cases hack : ackBatchFrames ≤ p + 1 ∨ a + p + 1 = batchCount j.batch j.inner.length
      · -- the kernel acknowledges all that it has taken
        rw [if_pos hack] at hstep
        have hlen : j.inner.length < 2 ^ 32 := by omega
        have hacks := acks_dataAck (j := j) j.linearConf .building 0 (a + p + 1) hlen
        have hanswer := JoinCall.buildStep_aligned h hopen (t := a + p + 1) (by omega) (by omega)
          hacks
        by_cases hall : a + p + 1 = batchCount j.batch j.inner.length
        · rw [if_pos hall] at hanswer hstep
          have hfull : (j.arriving j.inner).take ((a + p + 1) * j.batch) = j.arriving j.inner := by
            refine List.take_of_length_le ?_
            have hnot := (lt_batchCount (n := j.inner.length) (i := a + p + 1) hb).not.mp (by omega)
            rw [JoinCall.length_arriving]
            omega
          obtain ⟨e, hleads, he⟩ := hprobe (hfull ▸ hfits)
          refine ⟨e, Leads.frame (by simp) hstep (LeadsFrom.ack rfl (by simp) ?_), he⟩
          rw [List.nil_append, show s = a + p + 1 by omega, JoinCall.chunkFrames_self]
          show LeadsFrom j b (j.buildStep v _).1 (j.buildStep v _).2 _ _ _
          rw [hanswer]
          exact hleads
        · rw [if_neg hall] at hanswer hstep
          obtain ⟨v', s', hreact, haligned, hle, hopen', hahead'⟩ := hanswer
          obtain ⟨e, hleads, he⟩ := ih _ (by omega) (p := 0) haligned (by omega) hopen'
            (by omega) hahead' rfl
          refine ⟨e, Leads.frame (by simp) hstep (LeadsFrom.ack rfl (by simp) ?_), he⟩
          show LeadsFrom j b ([] ++ (j.buildStep v _).1) (j.buildStep v _).2 _ _ _
          rw [hreact]
          refine LeadsFrom.silent ?_
          rw [List.nil_append, JoinCall.flatten_chunkPackets,
            JoinCall.chunkFrames_append _ _ (by omega) hle]
          exact hleads
      · -- the kernel waits for a second batch
        rw [if_neg hack, if_neg (by omega)] at hstep
        have hp0 : p = 0 := by
          have hperiod : ackBatchFrames = 2 := rfl
          omega
        subst hp0
        obtain ⟨e, hleads, he⟩ := ih _ (by omega) (p := 1) h le_rfl hopen (by omega) hahead rfl
        refine ⟨e, Leads.frame (by simp) hstep (LeadsFrom.silent ?_), he⟩
        rw [List.flatten_nil, List.append_nil]
        exact hleads
    · -- a row does not fit
      rw [if_neg hfits] at hstep
      refine ⟨_, Leads.frame (by simp) hstep (leads_error _ _ (by simp [CState.kind])), ?_⟩
      exact hover fun hall =>
        hfits (LinearHashTable.fits_sublist hall (List.take_sublist _ _))

/-! ## Probe phase -/

namespace JoinCall

variable (j : JoinCall)

/-- The outer rows of the first `i` batches. -/
def probed (i : Nat) : List InputTuple := (j.arriving j.outer).take (i * j.batch)

/-- The pairs of batch `i`, behind those that wait in the buffer: the full RESULT frames, and
what is left for later. -/
def pushed (i : Nat) (buf : List ResultPair) : List (List ResultPair) × List ResultPair :=
  Batching.push resultFlushPairs buf
    (join (j.arriving j.inner) (chunk (j.arriving j.outer) j.batch i))

variable {j}

theorem length_probed (i : Nat) : (j.probed i).length = itemsUpTo j.batch j.outer.length i := by
  rw [probed, length_take_chunks, length_arriving]

theorem probed_zero : j.probed 0 = [] := by
  rw [probed, Nat.zero_mul, List.take_zero]

theorem probed_succ (i : Nat) :
    j.probed (i + 1) = j.probed i ++ chunk (j.arriving j.outer) j.batch i :=
  take_succ_chunk _ _ _

theorem probed_all {i : Nat} (hi : batchCount j.batch j.outer.length ≤ i) :
    j.probed i = j.arriving j.outer := by
  have hb : 0 < j.batch := j.client.batch_pos
  have hnot : ¬ i * j.batch < j.outer.length := fun h =>
    absurd ((lt_batchCount hb).mpr h) (not_lt.mpr hi)
  refine List.take_of_length_le ?_
  rw [length_arriving]
  omega

/-- Sent and kept pairs are those of the rows that have been probed. -/
theorem pushed_pairs {i : Nat} {rs buf : List ResultPair}
    (h : rs ++ buf = join (j.arriving j.inner) (j.probed i)) :
    rs ++ (j.pushed i buf).1.flatten ++ (j.pushed i buf).2 =
      join (j.arriving j.inner) (j.probed (i + 1)) := by
  rw [List.append_assoc, pushed, Batching.push_flatten, ← List.append_assoc, h, probed_succ,
    join_append]

theorem pushed_sound {i : Nat} {buf : List ResultPair} (h : buf.length < resultFlushPairs) :
    SoundBatches (j.pushed i buf).1 := by
  intro f hf
  have hlen : f.length = resultFlushPairs := Batching.push_batch_length _ _ h f hf
  refine ⟨List.length_pos_iff.mp ?_, ?_⟩ <;> rw [hlen] <;> decide

theorem flush_sound {buf : List ResultPair} (h : buf.length < resultFlushPairs) :
    SoundBatches (Batching.flush buf) := by
  intro f hf
  unfold Batching.flush at hf
  split at hf
  next => simp at hf
  next hne =>
    rw [List.mem_singleton.mp hf]
    exact ⟨hne, h.le.trans (by decide)⟩

end JoinCall

/-- One batch of the probe phase. -/
theorem probe_taken {i p : Nat} (buf : List ResultPair) (hi : i * j.batch < j.outer.length) :
    step b (.probe j.linearConf i p (j.arriving j.inner) (j.probed i) buf)
        (.frame (.data .outer j.config.keyType (chunk j.outer j.batch i))) =
      some (.emit ((j.pushed i buf).1.map .results) <|
        if i + 1 = batchCount j.batch j.outer.length then
          .emit ((Batching.flush (j.pushed i buf).2).map .results ++
            [.timing, doneStatus j.linearConf (itemsUpTo j.batch j.outer.length (i + 1))
              (join (j.arriving j.inner) (j.probed (i + 1))).length]) (endSession b)
        else if ackBatchFrames ≤ p + 1 then
          .emit [dataAck j.linearConf .probing j.outer.length
              (itemsUpTo j.batch j.outer.length (i + 1))
              (join (j.arriving j.inner) (j.probed (i + 1))).length]
            (enterProbe b j.linearConf (i + 1) 0 (j.arriving j.inner) (j.probed (i + 1))
              (j.pushed i buf).2)
        else enterProbe b j.linearConf (i + 1) (p + 1) (j.arriving j.inner) (j.probed (i + 1))
          (j.pushed i buf).2) := by
  have hb : 0 < j.batch := j.client.batch_pos
  have hsize : (chunk (j.arriving j.outer) j.batch i).length = batchSize j.batch j.outer.length i := by
    rw [length_chunk, JoinCall.length_arriving]
  have htotal : j.linearConf.outerTotal = j.outer.length := rfl
  -- all rows of the batch are probed
  have hnew : (chunk (j.arriving j.outer) j.batch i).take
      (j.linearConf.outerTotal - (j.probed i).length) = chunk (j.arriving j.outer) j.batch i := by
    refine List.take_of_length_le ?_
    rw [hsize, JoinCall.length_probed, htotal]
    unfold batchSize itemsUpTo
    omega
  have hall : ((chunk (j.arriving j.outer) j.batch i).length = 0 ∨
      j.linearConf.outerTotal ≤ (j.probed (i + 1)).length) ↔
      i + 1 = batchCount j.batch j.outer.length := by
    have hlt := lt_batchCount (n := j.outer.length) (i := i) hb
    have hlt' := lt_batchCount (n := j.outer.length) (i := i + 1) hb
    have hpos := batchSize_pos hb hi
    rw [hsize, JoinCall.length_probed, htotal]
    unfold itemsUpTo
    omega
  have hstep : step b (.probe j.linearConf i p (j.arriving j.inner) (j.probed i) buf)
      (.frame (.data .outer j.config.keyType (chunk j.outer j.batch i))) =
      some (probeStep b j.linearConf i p (j.arriving j.inner) (j.probed i) buf
        (chunk (j.arriving j.outer) j.batch i)) := by
    rw [step, JoinCall.dataRows_chunk j.outer rfl]
    rfl
  rw [hstep]
  simp only [probeStep, hnew, ← JoinCall.probed_succ, hall]
  simp only [JoinCall.length_probed, htotal]
  rfl

/-- The loop of the probe phase goes on until it has taken its last frame. -/
theorem enterProbe_taken {i p : Nat} {buf : List ResultPair} (inner : List InputTuple)
    (hi : i < batchCount j.batch j.outer.length) :
    enterProbe b j.linearConf i p inner (j.probed i) buf =
      if i < maxProbeFrames then ([], .probe j.linearConf i p inner (j.probed i) buf)
      else Reaction.emit [.timing, doneStatus j.linearConf 0 (join inner (j.probed i)).length]
        (endSession b) := by
  have hrow := (lt_batchCount j.client.batch_pos).mp hi
  have hless : (j.probed i).length < j.linearConf.outerTotal := by
    rw [JoinCall.length_probed, itemsUpTo_of_lt hrow]
    exact hrow
  unfold enterProbe
  by_cases hframe : i < maxProbeFrames
  · rw [if_pos hframe, if_pos ⟨hframe, hless⟩]
  · rw [if_neg hframe, if_neg fun hmore => hframe hmore.1]

/-- The result of the call when the kernel has reported the number of pairs. -/
def verified (rs : List ResultPair) (ack : StatusPayload) : JoinResult :=
  if ack.rowsMatched.toNat ≠ rs.length then .error (matchedMismatch "final STATUS" rs ack)
  else .ok rs

theorem verifyStep_verified (rs : List ResultPair) (ack : StatusPayload) :
    (j.verifyStep rs ack).2 = .finished (verified rs ack) := by
  unfold JoinCall.verifyStep verified
  split <;> rfl

theorem probing_ne_done : Phase.probing.code ≠ Phase.done.code := by decide

/-- A STATUS that reports the end closes the probe phase. -/
theorem leads_done (ps : List Packet) (v : Window) (rs : List ResultPair) (way : List HostFrame)
    (processed matched : Nat) :
    ∃ r, LeadsFrom j b ps (.probe v rs) way
        (.emit [.timing, doneStatus j.linearConf processed matched] (endSession b)) (.returns r) ∧
      (matched = rs.length → matched < 2 ^ 32 → r = .ok rs) := by
  set ack : StatusPayload :=
    { phase := Phase.done.code
      sessionId := j.linearConf.sessionId
      rowsProcessed := UInt32.ofNat processed
      rowsMatched := UInt32.ofNat matched } with hack
  have hanswer : (CState.answer j ack (.probe v rs)).2 = .finished (verified rs ack) := by
    have hneeds : ¬ j.NeedsProbeEnd ack := fun h => probing_ne_done h.2.2.1.symm
    show (j.probeStep v rs ack).2 = _
    rw [JoinCall.probeStep, if_pos rfl, j.enterProbe_done _ rfl, JoinCall.probeEndStep,
      if_neg hneeds, JoinCall.completeStep, if_neg fun h => h.1 rfl, if_neg fun h => h rfl]
    exact verifyStep_verified rs ack
  refine ⟨verified rs ack, ?_, ?_⟩
  · refine LeadsFrom.timing (by simp) (LeadsFrom.status rfl (by simp) ?_)
    rw [hanswer]
    exact LeadsFrom.over
  · intro hlen hlt
    have hmatched : ack.rowsMatched.toNat = rs.length := by
      rw [hack, ← hlen]
      exact UInt32.toNat_ofNat_of_lt' hlt
    rw [verified, if_neg (not_not.mpr hmatched)]

/-- **The probe phase.** Whatever part of it is over, the call comes to an end, and with all
pairs if the frames do not run out. -/
theorem probe_leads (hlen : j.outer.length < 2 ^ 32) (hpace : j.Paced j.outer)
    {a p s : Nat} {v : Window} {rs buf : List ResultPair}
    (h : CreditWindow.Aligned j.batch j.outer.length a s v) (hp : p ≤ 1) (hopen : s ≤ a + j.window)
    (hmore : a + p < batchCount j.batch j.outer.length) (hframe : a + p < maxProbeFrames)
    (hahead : j.ahead j.outer a ≤ s)
    (hbuf : buf.length < resultFlushPairs)
    (hrs : rs ++ buf = join (j.arriving j.inner) (j.probed (a + p))) :
    ∃ r, Leads j b (.probe v rs) (j.chunkFrames .outer j.outer (a + p) s)
      (.probe j.linearConf (a + p) p (j.arriving j.inner) (j.probed (a + p)) buf) (.returns r) ∧
      j.Reports r := by
  have hb : 0 < j.batch := j.client.batch_pos
  induction hk : batchCount j.batch j.outer.length - (a + p) using Nat.strong_induction_on
    generalizing a p s v rs buf with
  | _ k ih =>
    have hrow := (lt_batchCount hb).mp hmore
    have hlast := h.le_batchCount hb
    have htwo := hpace.ahead_eq a
    have hrs' := JoinCall.pushed_pairs hrs
    have hbuf' : (j.pushed (a + p) buf).2.length < resultFlushPairs :=
      Batching.push_rest_lt _ _ hbuf
    have hstep := probe_taken (b := b) (p := p) buf hrow
    rw [JoinCall.chunkFrames_cons _ _ (show a + p < s by omega)]
    by_cases hall : a + p + 1 = batchCount j.batch j.outer.length
    · -- the last batch: the rest of the pairs and the final STATUS
      rw [if_pos hall, ← Reaction.emit_emit] at hstep
      obtain ⟨r, hleads, hr⟩ := leads_done (j := j) (b := b) [] v
        (rs ++ (j.pushed (a + p) buf).1.flatten ++
          (Batching.flush (j.pushed (a + p) buf).2).flatten)
        (j.chunkFrames .outer j.outer (a + p + 1) s) (itemsUpTo j.batch j.outer.length (a + p + 1))
        (join (j.arriving j.inner) (j.probed (a + p + 1))).length
      refine ⟨r, Leads.frame (by simp) hstep (LeadsFrom.probeResults (JoinCall.pushed_sound hbuf)
        (LeadsFrom.probeResults (JoinCall.flush_sound hbuf') hleads)), fun _ _ => ?_⟩
      rw [Batching.flatten_flush, hrs', JoinCall.probed_all (by omega)] at hr
      refine hr rfl ((length_join_le _ _).trans_lt ?_)
      rwa [JoinCall.length_arriving]
    · rw [if_neg hall, enterProbe_taken _ (by omega), enterProbe_taken _ (by omega)] at hstep
      by_cases hack : ackBatchFrames ≤ p + 1
      · rw [if_pos hack] at hstep
        have hacks := acks_dataAck (j := j) j.linearConf .probing
          (join (j.arriving j.inner) (j.probed (a + p + 1))).length (a + p + 1) hlen
        have hanswer := JoinCall.probeStep_aligned h hopen (t := a + p + 1) (by omega)
          (by omega) hacks probing_ne_done (rs ++ (j.pushed (a + p) buf).1.flatten)
        rw [if_neg hall] at hanswer
        obtain ⟨v', s', hreact, haligned, hle, hopen', hahead'⟩ := hanswer
        by_cases hframe' : a + p + 1 < maxProbeFrames
        · rw [if_pos hframe'] at hstep
          obtain ⟨r, hleads, hr⟩ := ih _ (by omega) (p := 0) haligned (by omega) hopen'
            (by omega) hframe' hahead' hbuf' hrs' rfl
          refine ⟨r, Leads.frame (by simp) hstep (LeadsFrom.probeAck (JoinCall.pushed_sound hbuf) rfl
            hreact (LeadsFrom.silent ?_)), hr⟩
          rw [List.nil_append, JoinCall.flatten_chunkPackets,
            JoinCall.chunkFrames_append _ _ (by omega) hle]
          exact hleads
        · -- the kernel takes no further frame and reports the end
          rw [if_neg hframe'] at hstep
          obtain ⟨r, hleads, -⟩ := leads_done (j := j) (b := b)
            (j.chunkPackets .outer j.outer s s') v' (rs ++ (j.pushed (a + p) buf).1.flatten)
            (j.chunkFrames .outer j.outer (a + p + 1) s) 0
            (join (j.arriving j.inner) (j.probed (a + p + 1))).length
          exact ⟨r, Leads.frame (by simp) hstep (LeadsFrom.probeAck (JoinCall.pushed_sound hbuf) rfl
            hreact hleads), fun _ hfew => absurd hfew (by omega)⟩
      · rw [if_neg hack] at hstep
        have hp0 : p = 0 := by
          have hperiod : ackBatchFrames = 2 := rfl
          omega
        subst hp0
        by_cases hframe' : a + 0 + 1 < maxProbeFrames
        · rw [if_pos hframe'] at hstep
          obtain ⟨r, hleads, hr⟩ := ih _ (by omega) (p := 1) h le_rfl hopen (by omega) hframe'
            hahead hbuf' hrs' rfl
          refine ⟨r, Leads.frame (by simp) hstep (LeadsFrom.probeResults (JoinCall.pushed_sound hbuf)
            (LeadsFrom.silent ?_)), hr⟩
          rw [List.flatten_nil, List.append_nil]
          exact hleads
        · rw [if_neg hframe'] at hstep
          obtain ⟨r, hleads, -⟩ := leads_done (j := j) (b := b) [] v
            (rs ++ (j.pushed (a + 0) buf).1.flatten)
            (j.chunkFrames .outer j.outer (a + 0 + 1) s) 0
            (join (j.arriving j.inner) (j.probed (a + 0 + 1))).length
          exact ⟨r, Leads.frame (by simp) hstep
            (LeadsFrom.probeResults (JoinCall.pushed_sound hbuf) hleads),
            fun _ hfew => absurd hfew (by omega)⟩

/-- A STATUS that reports the end closes the final wait. -/
theorem leads_final {c : Conf} (hc : c.sessionId = j.activeSessionId) (ps : List Packet)
    (rs : List ResultPair) (way : List HostFrame) (processed : Nat) {matched : Nat}
    (hmatched : matched = rs.length) (hlt : matched < 2 ^ 32) :
    LeadsFrom j b ps (.final rs) way (.emit [doneStatus c processed matched] (endSession b))
      (.returns (.ok rs)) := by
  set ack : StatusPayload :=
    { phase := Phase.done.code
      sessionId := c.sessionId
      rowsProcessed := UInt32.ofNat processed
      rowsMatched := UInt32.ofNat matched } with hack
  have hcount : ack.rowsMatched.toNat = rs.length := by
    rw [hack, ← hmatched]
    exact UInt32.toNat_ofNat_of_lt' hlt
  have hanswer : (CState.answer j ack (.final rs)).2 = .finished (.ok rs) := by
    show (j.finalStep rs ack).2 = _
    rw [JoinCall.finalStep, if_neg fun h => h rfl, verifyStep_verified, verified,
      if_neg (not_not.mpr hcount)]
  refine LeadsFrom.status hc (by simp) ?_
  rw [hanswer]
  exact LeadsFrom.over

/-! ## The whole call -/

/-- Without outer rows the client goes straight to the final wait. -/
theorem JoinCall.enterProbe_nil (h : j.outer = []) : j.enterProbe {} = ([], .final []) := by
  have hidle : ({} : StatusPayload).phase = Phase.idle.code := rfl
  have hneeds : ¬ j.NeedsProbeEnd {} := fun hneeds =>
    absurd hneeds.2.2.1 (by rw [hidle]; decide)
  have hfinal : ¬ j.FinalProbeAck [] {} := fun hfinal =>
    absurd hfinal.2.2.1 (by rw [hidle]; decide)
  rw [JoinCall.enterProbe, if_neg (by simp [h]), JoinCall.probeEndStep, if_neg hneeds,
    JoinCall.completeStep, if_neg fun h => hfinal h.2, if_pos (by rw [hidle]; decide)]

/-- The client at the start of the probe phase, when there are outer rows. -/
theorem JoinCall.enterProbe_starts (hmore : 0 < batchCount j.batch j.outer.length) :
    ∃ v s, j.enterProbe {} = (j.chunkPackets .outer j.outer 0 s, .probe v []) ∧
      CreditWindow.Aligned j.batch j.outer.length 0 s v ∧ s ≤ 0 + j.window ∧
      j.ahead j.outer 0 ≤ s := by
  have hb : 0 < j.batch := j.client.batch_pos
  have hpays : itemsUpTo j.batch j.outer.length (0 + 2) ≤
      itemsUpTo j.batch j.outer.length 0 + rxCreditTuples := by
    have htwo : itemsUpTo j.batch j.outer.length 2 ≤ 2 * j.batch := min_le_left _ _
    have hle : j.batch ≤ rxBufTuples := j.client.batch_le
    have hbuf : rxBufTuples = 256 := rfl
    have hgrant : rxCreditTuples = 512 := rfl
    show itemsUpTo j.batch j.outer.length 2 ≤ _
    omega
  obtain ⟨v, s, henter, haligned, -, hopen, hahead⟩ :=
    JoinCall.enterProbe_aligned (JoinCall.aligned_start j.batch j.outer.length rxCreditTuples)
      (by omega) hmore hpays [] {}
  exact ⟨v, s, henter, haligned, hopen, hahead⟩

/-- The kernel then waits for the first batch. -/
theorem enterProbe_starts (hmore : 0 < batchCount j.batch j.outer.length) :
    enterProbe b j.linearConf 0 0 (j.arriving j.inner) [] [] =
      ([], .probe j.linearConf 0 0 (j.arriving j.inner) (j.probed 0) []) := by
  have hrow := (lt_batchCount j.client.batch_pos).mp hmore
  rw [Nat.zero_mul] at hrow
  rw [JoinCall.probed_zero, enterProbe, if_pos ⟨by decide, hrow⟩]

/-- The probe phase from its start. -/
theorem probe_starts (hlen : j.outer.length < 2 ^ 32) (hpace : j.Paced j.outer) :
    ∃ r, LeadsFrom j b (j.enterProbe {}).1 (j.enterProbe {}).2 []
      (enterProbe b j.linearConf 0 0 (j.arriving j.inner) [] []) (.returns r) ∧ j.Reports r := by
  by_cases hnil : j.outer = []
  · have hkernel : enterProbe b j.linearConf 0 0 (j.arriving j.inner) [] [] =
        .emit [.timing] (.emit [doneStatus j.linearConf 0 0] (endSession b)) := by
      have htotal : j.linearConf.outerTotal = 0 := by
        rw [JoinCall.linearConf, hnil]
        rfl
      rw [enterProbe, if_neg (by simp [htotal])]
      rfl
    rw [JoinCall.enterProbe_nil hnil, hkernel]
    refine ⟨.ok [], LeadsFrom.timing (by simp)
      (leads_final rfl _ _ _ _ rfl (by decide)), fun _ _ => ?_⟩
    rw [JoinCall.reference, JoinCall.arriving, hnil]
    rfl
  · have hmore : 0 < batchCount j.batch j.outer.length := JoinCall.batchCount_pos.mpr hnil
    obtain ⟨v, s, henter, haligned, hopen, hahead⟩ := JoinCall.enterProbe_starts hmore
    have hrs : ([] : List ResultPair) ++ [] = join (j.arriving j.inner) (j.probed (0 + 0)) := by
      rw [Nat.add_zero, JoinCall.probed_zero]
      rfl
    obtain ⟨r, hleads, hr⟩ := probe_leads (b := b) hlen hpace haligned (Nat.zero_le _) hopen hmore
      (by decide) hahead (by decide) hrs
    refine ⟨r, ?_, hr⟩
    rw [henter, enterProbe_starts hmore]
    refine LeadsFrom.silent ?_
    rw [List.nil_append, JoinCall.flatten_chunkPackets]
    exact hleads

/-- The answer to CONFIGURE. -/
def JoinCall.configureAck (j : JoinCall) : StatusPayload :=
  { phase := Phase.building.code
    sessionId := j.activeSessionId
    credit := UInt16.ofNat rxCreditTuples }

theorem JoinCall.credit_configureAck (j : JoinCall) :
    j.configureAck.credit.toNat = rxCreditTuples := rfl

/-- The kernel accepts the configuration of a call. -/
theorem configure_answered {K outerSlotW : Nat} (hinner : j.inner.length < 2 ^ 32)
    (houter : j.outer.length < 2 ^ 32)
    (hcheck : checkConfigure j.config.algorithm j.inner.length j.outer.length =
      .ok (K, outerSlotW)) :
    step b .idle (.frame (.configure j.configurePayload)) =
      some (.emit [.ack j.configureAck]
        (if j.config.algorithm = AlgorithmType.algorithmB.code then
          enterGraceBuild b ⟨j.activeSessionId, j.config.keyType, j.inner.length, j.outer.length, K,
            outerSlotW⟩ 0 []
        else enterBuild b ⟨j.activeSessionId, j.config.keyType, j.inner.length, j.outer.length, K,
            outerSlotW⟩ 0 0 [])) := by
  have hinners : j.configurePayload.innerCount.toNat = j.inner.length :=
    UInt32.toNat_ofNat_of_lt' hinner
  have houters : j.configurePayload.outerCount.toNat = j.outer.length :=
    UInt32.toNat_ofNat_of_lt' houter
  have hkey : KeyType.ofCode j.configurePayload.keyType = j.config.keyType := KeyType.ofCode_code _
  have hcode : j.configurePayload.algorithm = j.config.algorithm := rfl
  show some (configureStep b j.configurePayload) = _
  rw [configureStep, hcode, hinners, houters, hcheck]
  dsimp only
  rw [hkey]
  rfl

theorem configure_taken (halg : j.config.algorithm = AlgorithmType.algorithmA.code)
    (hcap : j.inner.length ≤ htMaxRows) (hlen : j.outer.length < 2 ^ 32) :
    step b .idle (.frame (.configure j.configurePayload)) =
      some (.emit [.ack j.configureAck] (enterBuild b j.linearConf 0 0 [])) := by
  have hbuf : htMaxRows = 12288 := rfl
  have hcheck : checkConfigure j.config.algorithm j.inner.length j.outer.length = .ok (1, 0) := by
    rw [checkConfigure, if_pos halg, if_neg (by omega)]
  have hother : ¬ j.config.algorithm = AlgorithmType.algorithmB.code := by
    rw [halg]
    decide
  have hstep := configure_answered (b := b) (by omega) hlen hcheck
  rwa [if_neg hother] at hstep

/-- The answer to CONFIGURE, when there are inner rows: the client has its first batches under
way. -/
theorem configured_leads {kr : Reaction} (hstep : step b .idle (.frame (.configure j.configurePayload)) =
      some (.emit [.ack j.configureAck] kr)) (hmore : 0 < batchCount j.batch j.inner.length) :
    ∃ v s, CreditWindow.Aligned j.batch j.inner.length 0 s v ∧ s ≤ 0 + j.window ∧
      j.ahead j.inner 0 ≤ s ∧
      ∀ {e}, LeadsFrom j b [] (.build v) (j.chunkFrames .inner j.inner 0 s) kr e →
        Leads j b .config j.configurePacket .idle e := by
  have hw : 0 < j.window := j.client.window_pos
  obtain ⟨s, hs, haligned, hpacket, hpays⟩ :=
    JoinCall.firstWindow_aligned (j := j) j.credit_configureAck
  obtain ⟨v, s', henter, haligned', hle, hopen, hahead⟩ :=
    JoinCall.enterBuild_aligned haligned (by omega) hmore hpays
  refine ⟨v, s', haligned', hopen, hahead, fun hleads => ?_⟩
  rw [hpacket]
  refine Leads.frame (by simp) hstep (LeadsFrom.ack rfl (by simp) ?_)
  show LeadsFrom j b ([] ++ (j.enterBuild (j.firstWindow j.configureAck)).1)
    (j.enterBuild (j.firstWindow j.configureAck)).2 _ _ _
  rw [henter]
  refine LeadsFrom.sent ?_
  rwa [List.nil_append, JoinCall.flatten_chunkPackets, JoinCall.flatten_chunkPackets,
    JoinCall.chunkFrames_append _ _ (Nat.zero_le _) hle]

/-- Without inner rows the probe phase follows at once. -/
theorem configured_leads_nil {kr : Reaction}
    (hstep : step b .idle (.frame (.configure j.configurePayload)) =
      some (.emit [.ack j.configureAck] kr)) (hnil : 0 = batchCount j.batch j.inner.length)
    {e : Outcome} (h : LeadsFrom j b (j.enterProbe {}).1 (j.enterProbe {}).2 [] kr e) :
    Leads j b .config j.configurePacket .idle e := by
  obtain ⟨s, hs, haligned, hpacket, -⟩ :=
    JoinCall.firstWindow_aligned (j := j) j.credit_configureAck
  have hlast := haligned.le_batchCount j.client.batch_pos
  obtain rfl : s = 0 := by omega
  have hbuild : j.enterBuild (j.firstWindow j.configureAck) = j.enterProbe {} := by
    refine JoinCall.enterBuild_over ?_
    rw [← hnil]
    exact haligned
  rw [hpacket, JoinCall.chunkPackets_self, List.flatten_nil]
  refine Leads.frame (by simp) hstep (LeadsFrom.ack rfl (by simp) ?_)
  show LeadsFrom j b ([] ++ (j.enterBuild (j.firstWindow j.configureAck)).1)
    (j.enterBuild (j.firstWindow j.configureAck)).2 _ _ _
  rw [hbuild]
  exact h

theorem configure_leads (halg : j.config.algorithm = AlgorithmType.algorithmA.code)
    (hcap : j.inner.length ≤ htMaxRows) (hlen : j.outer.length < 2 ^ 32)
    (hmore : 0 < batchCount j.batch j.inner.length) :
    ∃ v s, CreditWindow.Aligned j.batch j.inner.length 0 s v ∧ s ≤ 0 + j.window ∧
      j.ahead j.inner 0 ≤ s ∧
      ∀ {e}, Leads j b (.build v) (j.chunkFrames .inner j.inner 0 s) (.build j.linearConf 0 0 []) e →
        Leads j b .config j.configurePacket .idle e := by
  have hstep := configure_taken (b := b) halg hcap hlen
  have hkernel := enterBuild_taken (b := b) (j := j) (p := 0) hcap (Nat.zero_le _)
  rw [Nat.zero_mul, List.take_zero, if_neg (by omega)] at hkernel
  rw [hkernel] at hstep
  obtain ⟨v, s, haligned, hopen, hahead, hconfig⟩ := configured_leads hstep hmore
  refine ⟨v, s, haligned, hopen, hahead, fun hleads => hconfig (LeadsFrom.silent ?_)⟩
  rwa [List.flatten_nil, List.append_nil]

theorem configure_leads_nil (halg : j.config.algorithm = AlgorithmType.algorithmA.code)
    (hcap : j.inner.length ≤ htMaxRows) (hlen : j.outer.length < 2 ^ 32)
    (hnil : 0 = batchCount j.batch j.inner.length) {e : Outcome}
    (h : LeadsFrom j b (j.enterProbe {}).1 (j.enterProbe {}).2 []
      (enterProbe b j.linearConf 0 0 (j.arriving j.inner) [] []) e) :
    Leads j b .config j.configurePacket .idle e := by
  have hstep := configure_taken (b := b) halg hcap hlen
  have hkernel := enterBuild_taken (b := b) (j := j) (p := 0) hcap (Nat.zero_le _)
  rw [Nat.zero_mul, List.take_zero, if_pos hnil] at hkernel
  rw [hkernel] at hstep
  exact configured_leads_nil hstep hnil h

/-- A call that is paced in its build phase, up to the start of the probe phase. -/
theorem session_leads {Q : Outcome → Prop}
    (halg : j.config.algorithm = AlgorithmType.algorithmA.code) (hcap : j.inner.length ≤ htMaxRows)
    (hlen : j.outer.length < 2 ^ 32) (hpace : j.Paced j.inner)
    (hprobe : LinearHashTable.fits (j.arriving j.inner) →
      ∃ e, LeadsFrom j b (j.enterProbe {}).1 (j.enterProbe {}).2 []
        (enterProbe b j.linearConf 0 0 (j.arriving j.inner) [] []) e ∧ Q e)
    (hover : ¬ LinearHashTable.fits (j.arriving j.inner) → Q overflowed) :
    ∃ e, Leads j b .config j.configurePacket .idle e ∧ Q e := by
  by_cases hrows : j.inner = []
  · have hnil : ¬ 0 < batchCount j.batch j.inner.length :=
      JoinCall.batchCount_pos.not.mpr (not_not.mpr hrows)
    obtain ⟨e, hleads, he⟩ := hprobe (by
      rw [JoinCall.arriving, hrows]
      exact LinearHashTable.fits_nil)
    exact ⟨e, configure_leads_nil halg hcap hlen (by omega) hleads, he⟩
  · have hmore : 0 < batchCount j.batch j.inner.length := JoinCall.batchCount_pos.mpr hrows
    obtain ⟨v, s, haligned, hopen, hahead, hconfig⟩ := configure_leads (b := b) halg hcap hlen hmore
    obtain ⟨e, hleads, he⟩ := build_leads (p := 0) hcap hpace hprobe hover haligned (Nat.zero_le _)
      hopen hmore hahead
    rw [Nat.add_zero, Nat.zero_mul, List.take_zero] at hleads
    exact ⟨e, hconfig hleads, he⟩

/-- **A call with Algorithm A.** Whatever the build of the kernel, a paced call comes to an end:
with all pairs if the table has room for the inner rows and the frames of the probe phase do not
run out, and with the error of the kernel if the table has no room. -/
theorem linear_leads (halg : j.config.algorithm = AlgorithmType.algorithmA.code)
    (hcap : j.inner.length ≤ htMaxRows) (hlen : j.outer.length < 2 ^ 32)
    (hinner : j.Paced j.inner) (houter : j.Paced j.outer) :
    ∃ r, Leads j b .config j.configurePacket .idle (.returns r) ∧ j.Reports r ∧
      (¬ LinearHashTable.fits (j.arriving j.inner) → Outcome.returns r = overflowed) := by
  have hprobe : LinearHashTable.fits (j.arriving j.inner) →
      ∃ e, LeadsFrom j b (j.enterProbe {}).1 (j.enterProbe {}).2 []
        (enterProbe b j.linearConf 0 0 (j.arriving j.inner) [] []) e ∧
          ∃ r, e = .returns r ∧ j.Reports r ∧
            (¬ LinearHashTable.fits (j.arriving j.inner) → Outcome.returns r = overflowed) := by
    intro hfits
    obtain ⟨r, hleads, hr⟩ := probe_starts (b := b) hlen houter
    exact ⟨_, hleads, r, rfl, hr, fun hfull => absurd hfits hfull⟩
  obtain ⟨e, hleads, r, rfl, hr⟩ := session_leads halg hcap hlen hinner hprobe fun hfull =>
    ⟨_, rfl, fun hfits => absurd hfits hfull, fun _ => rfl⟩
  exact ⟨r, hleads, hr⟩

end Linear

end FpgaHashJoin
