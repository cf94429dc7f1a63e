import FpgaHashJoin.Kernel.Sessions

/-!
# Whole sessions of Algorithm B

Both sides of the join are distributed in the same way; `Distribution` is what the two phases
have in common, and the run over the frames of a side is derived for it once. The partitions
are then joined one after the other. Equal keys meet in one partition, so the pairs of all
partitions are those of the join, in another order.
-/

namespace FpgaHashJoin

open Process EquiJoin GraceHashEngine KState

/-! ## One side -/

/-- A phase that distributes the rows of one side. -/
structure Distribution (b : Build) (c : Conf) where
  msg : DataMsg
  phase : Phase
  total : Nat
  limit : Nat
  waiting : Nat → List InputTuple → KState
  enter : Nat → List InputTuple → Reaction
  finish : List InputTuple → Reaction
  enter_eq : ∀ frame rows, enter frame rows =
    if frame ≤ (UInt32.ofNat total + 1).toNat ∧ rows.length < total then ([], waiting frame rows)
    else finish rows
  step_eq : ∀ frame rows {f}, dataRows c c.keyType f = some f →
    step b (waiting frame rows) (.frame (.data msg c.keyType f)) = some
      (if partsFit c limit (rows ++ f) then
        .emit [dataAck c phase total (rows ++ f).length 0] (enter (frame + 1) (rows ++ f))
      else .emit [.error FpgaError.overflow.code] (endSession b))

def innerDistribution (b : Build) (c : Conf) : Distribution b c where
  msg := .inner
  phase := .building
  total := c.innerTotal
  limit := htMaxRows
  waiting := .graceBuild c
  enter := enterGraceBuild b c
  finish := fun inner => enterGraceProbe b c 0 inner []
  enter_eq := fun _ _ => rfl
  step_eq := by
    intro frame rows f hf
    simp [step, hf, graceBuildStep]

def outerDistribution (b : Build) (c : Conf) (inner : List InputTuple) : Distribution b c where
  msg := .outer
  phase := .probing
  total := c.outerTotal
  limit := c.outerSlotW / graceWordsPerTuple
  waiting := fun frame outer => .graceProbe c frame inner outer
  enter := fun frame outer => enterGraceProbe b c frame inner outer
  finish := fun outer => graceFinish b c inner outer
  enter_eq := fun _ _ => rfl
  step_eq := by
    intro frame rows f hf
    simp [step, hf, graceProbeStep]

namespace Distribution

variable {b : Build} {c : Conf} (d : Distribution b c)

/-- The loop bound does not end the phase while rows are missing. -/
def LoopSuffices : Prop := ∀ frame rows, frame ≤ rows.length → rows.length < d.total →
  (rows ≠ [] → partsFit c d.limit rows) → frame ≤ (UInt32.ofNat d.total + 1).toNat

variable {d}

/-- **A phase whose rows fit.** -/
theorem plays (hbound : d.LoopSuffices) {fs : List (List InputTuple)} (frame : Nat)
    (rows : List InputTuple) (hfs : ∀ f ∈ fs, Carried c.keyType f) (hframe : frame ≤ rows.length)
    (htotal : (rows ++ fs.flatten).length = d.total)
    (hfit : partsFit c d.limit (rows ++ fs.flatten)) :
    ∃ acks, (∀ o ∈ acks, ∃ a, o = .ack a) ∧ ∀ {es os st},
      Plays b (d.finish (rows ++ fs.flatten)) es os st →
      Plays b (d.enter frame rows) (fs.map (.data d.msg c.keyType) ++ es) (acks ++ os) st := by
  induction fs generalizing frame rows with
  | nil =>
    refine ⟨[], by simp, ?_⟩
    intro es os st h
    rw [List.flatten_nil, List.append_nil] at htotal h
    rw [d.enter_eq, if_neg (by omega)]
    exact h
  | cons f fs ih =>
    have hf := hfs f List.mem_cons_self
    have hpos := hf.pos
    have hrows : rows ++ (f :: fs).flatten = rows ++ f ++ fs.flatten := by simp
    rw [hrows] at htotal hfit ⊢
    have hlen : rows.length + f.length + fs.flatten.length = d.total := by
      rw [← List.length_append, ← List.length_append]
      exact htotal
    have hfirst : partsFit c d.limit (rows ++ f) :=
      partsFit_sublist hfit (List.sublist_append_left _ _)
    have hmore : frame ≤ (UInt32.ofNat d.total + 1).toNat ∧ rows.length < d.total := by
      refine ⟨hbound frame rows hframe (by omega) fun _ => ?_, by omega⟩
      exact partsFit_sublist hfirst (List.sublist_append_left _ _)
    obtain ⟨acks, hacks, hrest⟩ := ih (frame + 1) (rows ++ f) (fun g hg => hfs g (List.mem_cons_of_mem _ hg))
      (by rw [List.length_append]; omega) htotal hfit
    refine ⟨dataAck c d.phase d.total (rows ++ f).length 0 :: acks, ?_, ?_⟩
    · intro o ho
      rcases List.mem_cons.mp ho with rfl | ho
      · exact ⟨_, rfl⟩
      · exact hacks o ho
    · intro es os st h
      rw [d.enter_eq, if_pos hmore]
      refine Plays.cons (d.step_eq frame rows (dataRows_carried hf)) ?_
      rw [if_pos hfirst]
      exact (hrest h).emit [_]

/-- **A phase whose rows do not fit.** -/
theorem overflows (hbound : d.LoopSuffices) {fs : List (List InputTuple)} (frame : Nat)
    (rows : List InputTuple) (hfs : ∀ f ∈ fs, Carried c.keyType f) (hframe : frame ≤ rows.length)
    (htotal : (rows ++ fs.flatten).length = d.total) (hrows : partsFit c d.limit rows)
    (hfit : ¬ partsFit c d.limit (rows ++ fs.flatten)) :
    ∃ done todo acks, fs = done ++ todo ∧ (∀ o ∈ acks, ∃ a, o = .ack a) ∧
      Plays b (d.enter frame rows) (done.map (.data d.msg c.keyType))
        (acks ++ [.error FpgaError.overflow.code]) (endSession b).2 := by
  induction fs generalizing frame rows with
  | nil =>
    rw [List.flatten_nil, List.append_nil] at hfit
    exact absurd hrows hfit
  | cons f fs ih =>
    have hf := hfs f List.mem_cons_self
    have hpos := hf.pos
    have hsplit : rows ++ (f :: fs).flatten = rows ++ f ++ fs.flatten := by simp
    rw [hsplit] at htotal hfit
    have hlen : rows.length + f.length + fs.flatten.length = d.total := by
      rw [← List.length_append, ← List.length_append]
      exact htotal
    have hmore : frame ≤ (UInt32.ofNat d.total + 1).toNat ∧ rows.length < d.total :=
      ⟨hbound frame rows hframe (by omega) fun _ => hrows, by omega⟩
    rw [d.enter_eq, if_pos hmore]
    by_cases hfirst : partsFit c d.limit (rows ++ f)
    · obtain ⟨done, todo, acks, rfl, hacks, hplay⟩ :=
        ih (frame + 1) (rows ++ f) (fun g hg => hfs g (List.mem_cons_of_mem _ hg))
          (by rw [List.length_append]; omega) htotal hfirst hfit
      refine ⟨f :: done, todo, dataAck c d.phase d.total (rows ++ f).length 0 :: acks, rfl, ?_, ?_⟩
      · intro o ho
        rcases List.mem_cons.mp ho with rfl | ho
        · exact ⟨_, rfl⟩
        · exact hacks o ho
      · refine Plays.cons (d.step_eq frame rows (dataRows_carried hf)) ?_
        rw [if_pos hfirst]
        exact hplay.emit [_]
    · refine ⟨[f], fs, [], rfl, by simp, ?_⟩
      refine Plays.cons (d.step_eq frame rows (dataRows_carried hf)) ?_
      rw [if_neg hfirst]
      exact (Plays.nil b (endSession b)).emit [_]

/-- The phase from its start. -/
theorem LoopSuffices.plays_of (hbound : d.LoopSuffices) {fs : List (List InputTuple)}
    (hfs : ∀ f ∈ fs, Carried c.keyType f) (htotal : fs.flatten.length = d.total)
    (hfit : partsFit c d.limit fs.flatten) :
    ∃ acks, (∀ o ∈ acks, ∃ a, o = .ack a) ∧ ∀ {es os st},
      Plays b (d.finish fs.flatten) es os st →
      Plays b (d.enter 0 []) (fs.map (.data d.msg c.keyType) ++ es) (acks ++ os) st :=
  plays hbound 0 [] hfs le_rfl htotal hfit

theorem LoopSuffices.overflows_of (hbound : d.LoopSuffices) {fs : List (List InputTuple)}
    (hfs : ∀ f ∈ fs, Carried c.keyType f) (htotal : fs.flatten.length = d.total)
    (hfit : ¬ partsFit c d.limit fs.flatten) :
    ∃ done todo acks, fs = done ++ todo ∧ (∀ o ∈ acks, ∃ a, o = .ack a) ∧
      Plays b (d.enter 0 []) (done.map (.data d.msg c.keyType))
        (acks ++ [.error FpgaError.overflow.code]) (endSession b).2 :=
  overflows hbound 0 [] hfs le_rfl htotal (fun _ _ => Nat.zero_le _) hfit

end Distribution

/-! ## The loop bounds -/

theorem toNat_succ_ofNat {n : Nat} (h : n + 1 < 2 ^ 32) : (UInt32.ofNat n + 1).toNat = n + 1 := by
  have hn : (UInt32.ofNat n).toNat = n :=
    UInt32.toNat_ofNat_of_lt (Nat.lt_of_succ_lt h)
  rw [UInt32.toNat_add, hn]
  exact Nat.mod_eq_of_lt h

/-- What CONFIGURE admits for Algorithm B. -/
structure GraceAdmitted (c : Conf) : Prop where
  K_pos : 0 < c.K
  K_le : c.K ≤ graceMaxK
  memory : graceOuterAreaBase + c.K * c.outerSlotW ≤ graceDdr2TotalWords
  inner : c.innerTotal ≤ graceMaxInnerRows
  slots : c.outerSlotW = ((c.outerTotal / c.K + 1) * graceWordsPerTuple * 2) % 2 ^ 32
  outer : c.outerTotal < 2 ^ 32

section Admitted

variable {b : Build} {c : Conf}

theorem inner_loopSuffices (h : GraceAdmitted c) : (innerDistribution b c).LoopSuffices := by
  intro frame rows hframe hrows _
  have hinner := h.inner
  rw [graceMaxInnerRows_eq] at hinner
  have htotal : (innerDistribution b c).total = c.innerTotal := rfl
  rw [htotal] at hrows ⊢
  rw [toNat_succ_ofNat (by omega)]
  omega

/-- If the number of outer rows is so large that the loop bound wraps around, the slots are
too small for a single row. -/
theorem slots_eq_zero (h : GraceAdmitted c) (hmax : c.outerTotal = 2 ^ 32 - 1) :
    c.outerSlotW = 0 := by
  have hall : ∀ K < 257, 0 < K →
      6291456 + K * (((2 ^ 32 - 1) / K + 1) * 2 * 2 % 2 ^ 32) ≤ 16777216 →
      ((2 ^ 32 - 1) / K + 1) * 2 * 2 % 2 ^ 32 = 0 := by
    decide +kernel
  have hK := h.K_le
  have hmemory := h.memory
  rw [graceMaxK_eq] at hK
  rw [h.slots, hmax] at hmemory ⊢
  exact hall c.K (by omega) h.K_pos hmemory

theorem outer_loopSuffices (h : GraceAdmitted c) (inner : List InputTuple) :
    (outerDistribution b c inner).LoopSuffices := by
  intro frame rows hframe hrows hfit
  have htotal : (outerDistribution b c inner).total = c.outerTotal := rfl
  rw [htotal] at hrows ⊢
  by_cases hnil : rows = []
  · rw [hnil, List.length_nil] at hframe
    omega
  · have hnot : c.outerTotal ≠ 2 ^ 32 - 1 := by
      intro hmax
      obtain ⟨t, ts, rfl⟩ := List.exists_cons_of_ne_nil hnil
      have hp := partitionOf_lt t.key h.K_pos
      have hlimit := hfit (List.cons_ne_nil _ _) _ hp
      have hslot : (outerDistribution b c inner).limit = 0 := by
        simp [outerDistribution, slots_eq_zero h hmax]
      have hone : 1 ≤ (partRows c (partitionOf t.key c.K) (t :: ts)).length := by
        rw [← List.singleton_append, partRows_append, partRows_singleton, if_pos rfl]
        simp
      omega
    have houter := h.outer
    rw [toNat_succ_ofNat (by omega)]
    omega

end Admitted

/-! ## The join of the partitions -/

/-- The rows fit: no partition is too large, and each inner partition fits the table. -/
def GraceFits (c : Conf) (inner outer : List InputTuple) : Prop :=
  partsFit c htMaxRows inner ∧ partsFit c (c.outerSlotW / graceWordsPerTuple) outer ∧
    ∀ p < c.K, LinearHashTable.fits (partRows c p inner)

instance (c : Conf) (inner outer : List InputTuple) : Decidable (GraceFits c inner outer) :=
  inferInstanceAs (Decidable (_ ∧ _ ∧ ∀ p < c.K, _))

section Parts

variable {b : Build} {c : Conf} {inner : List InputTuple}

theorem progress_batches (pairs : List ResultPair) :
    ∀ o ∈ (Batching.batches txBufSize pairs).map KOut.results, o.Progress txBufSize := by
  intro o ho
  obtain ⟨f, hf, rfl⟩ := List.mem_map.mp ho
  exact Batching.batches_length (by decide) pairs f hf

theorem joinParts_ok (outer : List InputTuple) {ps : List Nat} (h : ∀ p ∈ ps, LinearHashTable.fits (partRows c p inner)) :
    (joinParts c inner outer ps).2 = true ∧
      (∀ o ∈ (joinParts c inner outer ps).1, o.Progress txBufSize) ∧
      resultPairs (joinParts c inner outer ps).1 = ps.flatMap (partJoin c inner outer) := by
  induction ps with
  | nil => simp [joinParts]
  | cons p ps ih =>
    obtain ⟨hok, hprogress, hpairs⟩ := ih fun q hq => h q (List.mem_cons_of_mem _ hq)
    simp only [joinParts, if_pos (h p List.mem_cons_self)]
    refine ⟨hok, ?_, ?_⟩
    · intro o ho
      rcases List.mem_append.mp ho with ho | ho
      · exact progress_batches _ o ho
      · exact hprogress o ho
    · rw [resultPairs_append, resultPairs_map, Batching.batches_flatten, hpairs,
        List.flatMap_cons]

theorem joinParts_overflow (outer : List InputTuple) {ps : List Nat} {p : Nat} (hp : p ∈ ps)
    (h : ¬ LinearHashTable.fits (partRows c p inner)) :
    (joinParts c inner outer ps).2 = false ∧
      ∃ pre, (joinParts c inner outer ps).1 = pre ++ [.error FpgaError.overflow.code] ∧
        ∀ o ∈ pre, o.Progress txBufSize := by
  induction ps with
  | nil => simp at hp
  | cons q ps ih =>
    by_cases hq : LinearHashTable.fits (partRows c q inner)
    · have hmem : p ∈ ps := by
        rcases List.mem_cons.mp hp with rfl | hmem
        · exact absurd hq h
        · exact hmem
      obtain ⟨hbad, pre, hpre, hprogress⟩ := ih hmem
      simp only [joinParts, if_pos hq]
      refine ⟨hbad, (Batching.batches txBufSize (partJoin c inner outer q)).map .results ++ pre,
        by rw [hpre, List.append_assoc], ?_⟩
      intro o ho
      rcases List.mem_append.mp ho with ho | ho
      · exact progress_batches _ o ho
      · exact hprogress o ho
    · rw [joinParts, if_neg hq]
      exact ⟨rfl, [], rfl, by simp⟩

/-- The pairs of all partitions are those of the join. -/
theorem parts_perm (inner outer : List InputTuple) (hK : 0 < c.K) :
    ((List.range c.K).flatMap (partJoin c inner outer)).Perm (join inner outer) :=
  partition_perm _ inner outer fun r _ => partitionOf_lt r.1 hK

theorem plays_finish_ok (outer : List InputTuple)
    (h : ∀ p < c.K, LinearHashTable.fits (partRows c p inner)) (hK : 0 < c.K) :
    ∃ pre, (∀ o ∈ pre, o.Progress txBufSize) ∧ (resultPairs pre).Perm (join inner outer) ∧
      Plays b (graceFinish b c inner outer) []
        (pre ++ [doneStatus c 0 (join inner outer).length]) (endSession b).2 := by
  obtain ⟨hok, hprogress, hpairs⟩ := joinParts_ok outer
    (fun p (hp : p ∈ List.range c.K) => h p (List.mem_range.mp hp))
  have hperm := parts_perm inner outer hK
  refine ⟨(joinParts c inner outer (List.range c.K)).1, hprogress, by rw [hpairs]; exact hperm, ?_⟩
  rw [← hperm.length_eq]
  unfold graceFinish
  simp only [hok, if_true, Reaction.emit_emit]
  have hend := (Plays.nil b (endSession b)).emit
    ((joinParts c inner outer (List.range c.K)).1 ++
      [doneStatus c 0 ((List.range c.K).flatMap (partJoin c inner outer)).length])
  simpa [endSession] using hend

theorem plays_finish_overflow (outer : List InputTuple) {p : Nat} (hp : p < c.K)
    (h : ¬ LinearHashTable.fits (partRows c p inner)) :
    ∃ pre, (∀ o ∈ pre, o.Progress txBufSize) ∧
      Plays b (graceFinish b c inner outer) [] (pre ++ [.error FpgaError.overflow.code])
        (endSession b).2 := by
  obtain ⟨hbad, pre, hpre, hprogress⟩ := joinParts_overflow outer
    (List.mem_range.mpr hp) h
  refine ⟨pre, hprogress, ?_⟩
  rw [← hpre]
  unfold graceFinish
  simp only [hbad, Bool.false_eq_true, if_false]
  have hend := (Plays.nil b (endSession b)).emit (joinParts c inner outer (List.range c.K)).1
  simpa [endSession] using hend

end Parts

/-! ## Whole sessions -/

section Session

variable {b : Build} {x : SessionInput} {K outerSlotW : Nat}

theorem SessionInput.graceAdmitted (halg : x.config.algorithm = AlgorithmType.algorithmB.code)
    (hcheck : checkConfigure x.config.algorithm x.config.innerCount.toNat x.config.outerCount.toNat =
      .ok (K, outerSlotW)) : GraceAdmitted (x.conf K outerSlotW) := by
  rw [halg] at hcheck
  obtain ⟨hpos, hle, hmemory⟩ := checkConfigure_grace hcheck
  obtain ⟨hinner, hslots⟩ := checkConfigure_slots hcheck
  exact ⟨hpos, hle, hmemory, hinner, hslots, x.config.outerCount.toNat_lt⟩

theorem progress_acks {os : List KOut} (h : ∀ o ∈ os, ∃ a, o = .ack a) (cap : Nat) :
    ∀ o ∈ os, o.Progress cap := by
  intro o ho
  obtain ⟨a, rfl⟩ := h o ho
  trivial

/-- CONFIGURE and the frames of both sides, when they can be distributed. -/
theorem grace_distributes (halg : x.config.algorithm = AlgorithmType.algorithmB.code)
    (hcheck : checkConfigure x.config.algorithm x.config.innerCount.toNat x.config.outerCount.toNat =
      .ok (K, outerSlotW)) (houter : x.config.outerCount.toNat = x.outer.length)
    (hinnerFit : partsFit (x.conf K outerSlotW) htMaxRows x.inner)
    (houterFit : partsFit (x.conf K outerSlotW) (outerSlotW / graceWordsPerTuple) x.outer) :
    ∃ acks, (∀ o ∈ acks, ∃ a, o = .ack a) ∧ ∀ {os st},
      Plays b (graceFinish b (x.conf K outerSlotW) x.inner x.outer) [] os st →
      Plays b ([], .idle) x.frames (acks ++ os) st := by
  have hc := SessionInput.graceAdmitted halg hcheck
  have hcount : x.config.innerCount.toNat = x.inner.length := x.innerCount_eq
  obtain ⟨acks, hacks, hbuild⟩ := (inner_loopSuffices (b := b) hc).plays_of
    x.innerFrames_carried hcount.symm hinnerFit
  obtain ⟨acks', hacks', hprobe⟩ := (outer_loopSuffices (b := b) hc x.inner).plays_of
    x.outerFrames_carried houter.symm houterFit
  refine ⟨x.configureAck :: (acks ++ acks'), ?_, ?_⟩
  · intro o ho
    rcases List.mem_cons.mp ho with rfl | ho
    · exact ⟨_, rfl⟩
    · rcases List.mem_append.mp ho with ho | ho
      · exact hacks o ho
      · exact hacks' o ho
  · intro os st h
    refine x.plays_configure hcheck ?_
    rw [if_pos halg]
    have hplay := hprobe h
    rw [List.append_nil] at hplay
    have hall := hbuild hplay
    rw [← List.append_assoc] at hall
    exact hall

/-- **A session whose rows fit reports the join.** -/
theorem grace_plays (halg : x.config.algorithm = AlgorithmType.algorithmB.code)
    (hcheck : checkConfigure x.config.algorithm x.config.innerCount.toNat
      x.config.outerCount.toNat = .ok (K, outerSlotW))
    (houter : x.config.outerCount.toNat = x.outer.length)
    (hfits : GraceFits (x.conf K outerSlotW) x.inner x.outer) :
    ∃ pre, (∀ o ∈ pre, o.Progress txBufSize) ∧
      (resultPairs pre).Perm (join x.inner x.outer) ∧
      Plays b ([], .idle) x.frames
        (pre ++ [doneStatus (x.conf K outerSlotW) 0 (join x.inner x.outer).length])
        (endSession b).2 := by
  obtain ⟨hinnerFit, houterFit, hparts⟩ := hfits
  obtain ⟨acks, hacks, hplay⟩ := grace_distributes (b := b) halg hcheck houter hinnerFit houterFit
  obtain ⟨pre, hpre, hperm, hfinish⟩ := plays_finish_ok (b := b) x.outer hparts
    (SessionInput.graceAdmitted halg hcheck).K_pos
  refine ⟨acks ++ pre, ?_, ?_, ?_⟩
  · intro o ho
    rcases List.mem_append.mp ho with ho | ho
    · exact progress_acks hacks _ o ho
    · exact hpre o ho
  · rw [resultPairs_append, resultPairs_of_acks hacks, List.nil_append]
    exact hperm
  · rw [List.append_assoc]
    exact hplay hfinish

/-- **A session whose rows do not fit ends with the overflow error.** -/
theorem grace_overflow (halg : x.config.algorithm = AlgorithmType.algorithmB.code)
    (hcheck : checkConfigure x.config.algorithm x.config.innerCount.toNat
      x.config.outerCount.toNat = .ok (K, outerSlotW))
    (houter : x.config.outerCount.toNat = x.outer.length)
    (hfits : ¬ GraceFits (x.conf K outerSlotW) x.inner x.outer) :
    ∃ fs pre, fs <+: x.frames ∧ (∀ o ∈ pre, o.Progress txBufSize) ∧
      Plays b ([], .idle) fs (pre ++ [.error FpgaError.overflow.code]) (endSession b).2 := by
  have hc := SessionInput.graceAdmitted halg hcheck
  have hcount : x.config.innerCount.toNat = x.inner.length := x.innerCount_eq
  by_cases hinnerFit : partsFit (x.conf K outerSlotW) htMaxRows x.inner
  · by_cases houterFit : partsFit (x.conf K outerSlotW) (outerSlotW / graceWordsPerTuple) x.outer
    · -- everything is distributed, and a partition does not fit the table
      have hparts : ∃ p, p < K ∧ ¬ LinearHashTable.fits (partRows (x.conf K outerSlotW) p x.inner) := by
        by_contra hall
        refine hfits ⟨hinnerFit, houterFit, fun p hp => ?_⟩
        by_contra hp'
        exact hall ⟨p, hp, hp'⟩
      obtain ⟨p, hp, hbad⟩ := hparts
      obtain ⟨acks, hacks, hplay⟩ := grace_distributes (b := b) halg hcheck houter hinnerFit
        houterFit
      obtain ⟨pre, hpre, hfinish⟩ := plays_finish_overflow (b := b) (c := x.conf K outerSlotW)
        x.outer hp hbad
      refine ⟨x.frames, acks ++ pre, List.prefix_rfl, ?_, ?_⟩
      · intro o ho
        rcases List.mem_append.mp ho with ho | ho
        · exact progress_acks hacks _ o ho
        · exact hpre o ho
      · rw [List.append_assoc]
        exact hplay hfinish
    · obtain ⟨acks, hacks, hbuild⟩ := (inner_loopSuffices (b := b) hc).plays_of
        x.innerFrames_carried hcount.symm hinnerFit
      obtain ⟨done, todo, acks', hsplit, hacks', hprobe⟩ :=
        (outer_loopSuffices (b := b) hc x.inner).overflows_of x.outerFrames_carried houter.symm
          houterFit
      refine ⟨.configure x.config :: (x.innerFrames.map (.data .inner x.keyType) ++
        done.map (.data .outer x.keyType)), x.configureAck :: (acks ++ acks'), ?_, ?_, ?_⟩
      · refine ⟨todo.map (.data .outer x.keyType), ?_⟩
        simp [SessionInput.frames, hsplit]
      · intro o ho
        rcases List.mem_cons.mp ho with rfl | ho
        · trivial
        · rcases List.mem_append.mp ho with ho | ho
          · exact progress_acks hacks _ o ho
          · exact progress_acks hacks' _ o ho
      · refine x.plays_configure hcheck ?_
        rw [if_pos halg]
        have hall := hbuild hprobe
        rw [← List.append_assoc] at hall
        exact hall
  · obtain ⟨done, todo, acks, hsplit, hacks, hbuild⟩ :=
      (inner_loopSuffices (b := b) hc).overflows_of x.innerFrames_carried hcount.symm hinnerFit
    refine ⟨.configure x.config :: done.map (.data .inner x.keyType), x.configureAck :: acks,
      ?_, ?_, ?_⟩
    · refine ⟨todo.map (.data .inner x.keyType) ++ x.outerFrames.map (.data .outer x.keyType), ?_⟩
      simp [SessionInput.frames, hsplit]
    · intro o ho
      rcases List.mem_cons.mp ho with rfl | ho
      · trivial
      · exact progress_acks hacks _ o ho
    · refine x.plays_configure hcheck ?_
      rw [if_pos halg]
      exact hbuild

/-- **An Algorithm B session reports the join or an overflow.** Given the frames of an
accepted session with all its rows, the kernel sends ACK and RESULT frames and ends with one
frame: the final STATUS, in which case all frames have been read, the pairs are those of the
join in some order and the STATUS has their number; or the overflow error. -/
theorem grace_session (b : Build) (s : Session) (x : SessionInput) (K outerSlotW : Nat)
    (halg : x.config.algorithm = AlgorithmType.algorithmB.code)
    (hcheck : checkConfigure x.config.algorithm x.config.innerCount.toNat
      x.config.outerCount.toNat = .ok (K, outerSlotW))
    (houter : x.config.outerCount.toNat = x.outer.length) :
    ∃ fs outs q pre last, fs <+: x.frames ∧ Settles (hashJoinKernel b s) (answers fs) outs q ∧
      outs.flatMap TxFrame.obs = pre ++ [last] ∧ (∀ o ∈ pre, o.Progress txBufSize) ∧
      (b.synthesis = false → ∃ s', q = .ret s') ∧
      if GraceFits (x.conf K outerSlotW) x.inner x.outer then
        fs = x.frames ∧ (resultPairs pre).Perm (join x.inner x.outer) ∧
          ∃ st, last = .status st ∧ st.phase = Phase.done.code ∧
            st.sessionId = x.config.sessionId ∧
            st.rowsMatched.toNat = (join x.inner x.outer).length
      else last = .error FpgaError.overflow.code := by
  by_cases hfits : GraceFits (x.conf K outerSlotW) x.inner x.outer
  · obtain ⟨pre, hpre, hperm, hplay⟩ := grace_plays (b := b) halg hcheck houter hfits
    obtain ⟨outs, q, hsettles, hobs, hq⟩ := hplay.settles s
    refine ⟨x.frames, outs, q, pre, _, List.prefix_rfl, hsettles, hobs, hpre,
      returned_of_ended hq, ?_⟩
    rw [if_pos hfits]
    exact ⟨rfl, hperm, _, rfl, rfl, rfl, toNat_matched x.inner x.config.outerCount houter.ge⟩
  · obtain ⟨fs, pre, hfs, hpre, hplay⟩ := grace_overflow (b := b) halg hcheck houter hfits
    obtain ⟨outs, q, hsettles, hobs, hq⟩ := hplay.settles s
    refine ⟨fs, outs, q, pre, _, hfs, hsettles, hobs, hpre, returned_of_ended hq, ?_⟩
    rw [if_neg hfits]

theorem grace_session_oneRowEach :
    ∃ outs q pre st,
      Settles (hashJoinKernel (.csim {}) default) (answers (oneRowEach .algorithmB).frames) outs q ∧
      outs.flatMap TxFrame.obs = pre ++ [.status st] ∧
      (resultPairs pre).Perm [(⟨1, 1⟩, ⟨2, 1⟩)] ∧ st.rowsMatched.toNat = 1 := by
  have hcheck : checkConfigure AlgorithmType.algorithmB.code 1 1 = .ok (1, 8) := by
    simp [checkConfigure, AlgorithmType.code]
  obtain ⟨fs, outs, q, pre, last, -, hsettles, hobs, -, -, h⟩ :=
    grace_session (.csim {}) default (oneRowEach .algorithmB) 1 8 rfl hcheck rfl
  rw [if_pos (by decide)] at h
  obtain ⟨rfl, hperm, st, rfl, -, -, hmatched⟩ := h
  exact ⟨outs, q, pre, st, hsettles, hobs, hperm, hmatched⟩

end Session

end FpgaHashJoin
