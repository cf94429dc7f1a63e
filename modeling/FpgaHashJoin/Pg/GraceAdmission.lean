import FpgaHashJoin.Kernel.Sessions

/-!
# Admission of Algorithm B on both sides

Before the adapter of the PostgreSQL extension (`fpga_adapter.cpp`) sends a join to the board
as an Algorithm B session, it checks that the partitions fit the external memory. The kernel
makes the same check when CONFIGURE arrives. The adapter has its own copy of the constants and
computes with 64 bits; the kernel computes the width of the outer slots with 32 bits.

* `kernel_answers`: the kernel's answer to CONFIGURE is decided by `checkConfigure`;
* `checkConfigure_algorithmB`, `graceDdrLayoutFits_eq`: both checks in terms of the exact width;
* `admission_agrees_iff`: the two sides agree if and only if the exact width fits 32 bits, or
  the kernel refuses for another reason.
-/

namespace FpgaHashJoin

open Process KState GraceHashEngine

namespace FpgaAdapter

def kHtMaxRows : Nat := 12288
def kGraceMaxK : Nat := 256
def kGraceWordsPerTuple : Nat := 2
def kGraceInnerSlotWords : Nat := kHtMaxRows * kGraceWordsPerTuple
def kGraceOuterAreaBase : Nat := kGraceMaxK * kGraceInnerSlotWords
def kGraceDdr2TotalWords : Nat := 16 * 1024 * 1024
def kGraceMaxInnerRows : Nat := kGraceMaxK * kHtMaxRows

/-- The check of the host. Its 64-bit arithmetic is exact for counts below `2 ^ 32`. -/
def graceDdrLayoutFits (innerCount outerCount : Nat) : Bool :=
  if kGraceMaxInnerRows < innerCount then false
  else
    let k := (innerCount + kHtMaxRows - 1) / kHtMaxRows
    let k := if k = 0 then 1 else k
    if kGraceMaxK < k then false
    else
      let outerSlotWords := (outerCount / k + 1) * kGraceWordsPerTuple * 2
      decide (kGraceOuterAreaBase + k * outerSlotWords ≤ kGraceDdr2TotalWords)

end FpgaAdapter

open FpgaAdapter

/-! ## The exact layout -/

/-- The number of partitions for the given number of inner rows. -/
def partitionCount (innerCount : Nat) : Nat :=
  if (innerCount + htMaxRows - 1) / htMaxRows = 0 then 1
  else (innerCount + htMaxRows - 1) / htMaxRows

/-- The width of an outer slot, computed without wrapping. -/
def exactSlotWords (innerCount outerCount : Nat) : Nat :=
  (outerCount / partitionCount innerCount + 1) * 4

theorem partitionCount_pos (n : Nat) : 0 < partitionCount n := by
  unfold partitionCount
  split
  · exact Nat.one_pos
  next h => exact Nat.pos_of_ne_zero h

theorem partitionCount_le {n : Nat} (h : n ≤ graceMaxInnerRows) : partitionCount n ≤ graceMaxK := by
  rw [graceMaxInnerRows_eq] at h
  unfold partitionCount
  split
  · decide
  · rw [htMaxRows_eq, graceMaxK_eq, Nat.div_le_iff_le_mul_add_pred (by omega)]
    omega

/-- The kernel's check. -/
theorem checkConfigure_algorithmB (inner outer : Nat) :
    checkConfigure AlgorithmType.algorithmB.code inner outer =
      if graceMaxInnerRows < inner then .error .overflow
      else if graceDdr2TotalWords <
          graceOuterAreaBase + partitionCount inner * (exactSlotWords inner outer % 2 ^ 32) then
        .error .overflow
      else .ok (partitionCount inner, exactSlotWords inner outer % 2 ^ 32) := by
  have hB : AlgorithmType.algorithmB.code ≠ AlgorithmType.algorithmA.code := by decide
  have hwidth : ∀ n : Nat, n * graceWordsPerTuple * 2 = n * 4 := by
    intro n
    rw [graceWordsPerTuple_eq]
    omega
  unfold checkConfigure
  rw [if_neg hB, if_pos rfl]
  dsimp only
  rw [hwidth]
  rfl

/-- The host's check: the same bound on the exact width. -/
theorem graceDdrLayoutFits_eq (inner outer : Nat) :
    graceDdrLayoutFits inner outer = true ↔ inner ≤ graceMaxInnerRows ∧
      graceOuterAreaBase + partitionCount inner * exactSlotWords inner outer ≤
        graceDdr2TotalWords := by
  have hconst : kHtMaxRows = htMaxRows ∧ kGraceMaxInnerRows = graceMaxInnerRows ∧
      kGraceMaxK = graceMaxK ∧ kGraceOuterAreaBase = graceOuterAreaBase ∧
      kGraceDdr2TotalWords = graceDdr2TotalWords := ⟨rfl, rfl, rfl, rfl, rfl⟩
  obtain ⟨hht, hrows, hK, hbase, htotal⟩ := hconst
  have hwidth : ∀ n : Nat, n * kGraceWordsPerTuple * 2 = n * 4 := by
    intro n
    rw [kGraceWordsPerTuple]
    omega
  unfold graceDdrLayoutFits
  simp only [hht, hrows, hK, hbase, htotal, hwidth, ← partitionCount.eq_def]
  by_cases hinner : graceMaxInnerRows < inner
  · rw [if_pos hinner]
    constructor
    · nofun
    · intro h
      omega
  · have hle := partitionCount_le (not_lt.mp hinner)
    rw [if_neg hinner, if_neg (not_lt.mpr hle), decide_eq_true_iff]
    exact ⟨fun h => ⟨not_lt.mp hinner, h⟩, fun h => h.2⟩

/-! ## The answer of the kernel -/

/-- The first frame that the kernel sends when it has read CONFIGURE, debug frames apart. -/
def Answers (b : Build) (s : Session) (p : ConfigurePayload) (o : KOut) : Prop :=
  ∃ outs q, Settles (hashJoinKernel b s) (answers [.configure p]) outs q ∧
    (outs.flatMap TxFrame.obs).head? = some o

theorem Answers.unique {b : Build} {s : Session} {p : ConfigurePayload} {o o' : KOut}
    (h : Answers b s p o) (h' : Answers b s p o') : o = o' := by
  obtain ⟨outs, q, hset, ho⟩ := h
  obtain ⟨outs', q', hset', ho'⟩ := h'
  obtain ⟨rfl, -⟩ := hset.unique hset'
  exact Option.some.inj (ho.symm.trans ho')

/-- The ACK of CONFIGURE. -/
def ConfigurePayload.accepted (p : ConfigurePayload) : KOut :=
  .ack
    { phase := Phase.building.code
      sessionId := p.sessionId
      credit := UInt16.ofNat rxCreditTuples }

/-- **The kernel answers CONFIGURE as `checkConfigure` says**, in whatever state it waits for
a session. -/
theorem kernel_answers (b : Build) (s : Session) (p : ConfigurePayload) :
    Answers b s p (match checkConfigure p.algorithm p.innerCount.toNat p.outerCount.toNat with
      | .ok _ => p.accepted
      | .error e => .error e.code) := by
  have hplays : Plays b ([], .idle) [.configure p] (configureStep b p).1 (configureStep b p).2 :=
    Plays.cons rfl (Plays.nil b _)
  obtain ⟨outs, q, hset, hobs, -⟩ := hplays.settles s
  refine ⟨outs, q, hset, ?_⟩
  rw [hobs, configureStep]
  split
  next e he => rw [he]; rfl
  next K w he => rw [he]; rfl

/-- An Algorithm B CONFIGURE is answered by its ACK or by the overflow error. -/
theorem answers_accepted_iff (b : Build) (s : Session) {p : ConfigurePayload}
    (hB : p.algorithm = AlgorithmType.algorithmB.code) :
    (Answers b s p p.accepted ↔ ¬ Answers b s p (.error FpgaError.overflow.code)) ∧
      (Answers b s p p.accepted ↔
        ∃ r, checkConfigure p.algorithm p.innerCount.toNat p.outerCount.toNat = .ok r) := by
  have hne : p.accepted ≠ .error FpgaError.overflow.code := nofun
  have hans := kernel_answers b s p
  rcases hcheck : checkConfigure p.algorithm p.innerCount.toNat p.outerCount.toNat with e | r
  · obtain rfl : e = .overflow := by
      rw [hB, checkConfigure_algorithmB] at hcheck
      split at hcheck
      · cases hcheck; rfl
      · split at hcheck <;> cases hcheck
        rfl
    rw [hcheck] at hans
    have hnot : ¬ Answers b s p p.accepted := fun h => hne (h.unique hans)
    refine ⟨⟨fun h => absurd h hnot, fun h => absurd hans h⟩, fun h => absurd h hnot, ?_⟩
    rintro ⟨r, hr⟩
    cases hr
  · rw [hcheck] at hans
    exact ⟨⟨fun h h' => hne (h.unique h'), fun _ => hans⟩, fun _ => ⟨r, rfl⟩, fun _ => hans⟩

/-! ## Agreement -/

/-- The host and the kernel agree on these counts: the host's check succeeds if and only if
the kernel, in whatever state it waits and whatever the other fields of CONFIGURE are, does
not answer with the overflow error; and then the kernel uses the exact slot width. -/
def AdmissionAgrees (inner outer : UInt32) : Prop :=
  ∀ (b : Build) (s : Session) (p : ConfigurePayload),
    p.algorithm = AlgorithmType.algorithmB.code → p.innerCount = inner → p.outerCount = outer →
      (graceDdrLayoutFits inner.toNat outer.toNat = true ↔
        ¬ Answers b s p (.error FpgaError.overflow.code)) ∧
      (graceDdrLayoutFits inner.toNat outer.toNat = true →
        ∃ K w, checkConfigure p.algorithm p.innerCount.toNat p.outerCount.toNat = .ok (K, w) ∧
          w = (outer.toNat / K + 1) * 4)

/-- What fits the memory fits 32 bits. -/
theorem exactSlotWords_lt {inner outer : Nat} (h : graceOuterAreaBase +
    partitionCount inner * exactSlotWords inner outer ≤ graceDdr2TotalWords) :
    exactSlotWords inner outer < 2 ^ 32 := by
  have hmul : exactSlotWords inner outer ≤ partitionCount inner * exactSlotWords inner outer :=
    Nat.le_mul_of_pos_left _ (partitionCount_pos inner)
  simp only [graceOuterAreaBase_eq, graceDdr2TotalWords_eq] at h
  omega

theorem checkConfigure_algorithmB_ok (inner outer : Nat) :
    (∃ r, checkConfigure AlgorithmType.algorithmB.code inner outer = .ok r) ↔
      inner ≤ graceMaxInnerRows ∧ graceOuterAreaBase +
        partitionCount inner * (exactSlotWords inner outer % 2 ^ 32) ≤ graceDdr2TotalWords := by
  rw [checkConfigure_algorithmB]
  split
  next h =>
    constructor
    · rintro ⟨r, hr⟩
      cases hr
    · rintro ⟨h', -⟩
      omega
  next h =>
    split
    next hmem =>
      constructor
      · rintro ⟨r, hr⟩
        cases hr
      · rintro ⟨-, h'⟩
        omega
    next hmem => exact ⟨fun _ => ⟨not_lt.mp h, not_lt.mp hmem⟩, fun _ => ⟨_, rfl⟩⟩

/-- Admitted by the board and refused by the host. -/
theorem not_agrees {inner outer : UInt32} {r : Nat × Nat}
    (hkernel : checkConfigure AlgorithmType.algorithmB.code inner.toNat outer.toNat = .ok r)
    (hhost : graceDdrLayoutFits inner.toNat outer.toNat = false) :
    ¬ AdmissionAgrees inner outer := by
  intro h
  let p : ConfigurePayload := ⟨AlgorithmType.algorithmB.code, 0, 0, inner, outer, 0⟩
  obtain ⟨hiff, -⟩ := h (.csim {}) default p rfl rfl rfl
  obtain ⟨hacc, hok⟩ := answers_accepted_iff (.csim {}) default (p := p) rfl
  have hfits := hiff.mpr (hacc.mp (hok.mpr ⟨r, hkernel⟩))
  rw [hhost] at hfits
  cases hfits

/-- **Host and board agree on Algorithm B if and only if** the inner rows are too many, or the
exact width of an outer slot fits 32 bits, or the wrapped width is too large as well. -/
theorem admission_agrees_iff (inner outer : UInt32) :
    AdmissionAgrees inner outer ↔
      graceMaxInnerRows < inner.toNat ∨ exactSlotWords inner.toNat outer.toNat < 2 ^ 32 ∨
        graceDdr2TotalWords < graceOuterAreaBase + partitionCount inner.toNat *
          (exactSlotWords inner.toNat outer.toNat % 2 ^ 32) := by
  have hfits := graceDdrLayoutFits_eq inner.toNat outer.toNat
  have hkernel := checkConfigure_algorithmB_ok inner.toNat outer.toNat
  constructor
  · intro h
    by_contra hcon
    rw [not_or, not_or, not_lt, not_lt, not_lt] at hcon
    obtain ⟨hinner, hwide, hmem⟩ := hcon
    -- the kernel takes the wrapped width, the host does not take the exact one
    obtain ⟨r, hr⟩ := hkernel.mpr ⟨hinner, hmem⟩
    refine not_agrees hr (Bool.eq_false_iff.mpr fun hhost => ?_) h
    have hlt := exactSlotWords_lt (hfits.mp hhost).2
    omega
  · rintro h b s p hB rfl rfl
    obtain ⟨hacc, hok⟩ := answers_accepted_iff b s hB
    have hsame : graceDdrLayoutFits p.innerCount.toNat p.outerCount.toNat = true ↔
        ∃ r, checkConfigure p.algorithm p.innerCount.toNat p.outerCount.toNat = .ok r := by
      rw [hB, hfits, hkernel]
      constructor
      · rintro ⟨hinner, hmem⟩
        rw [Nat.mod_eq_of_lt (exactSlotWords_lt hmem)]
        exact ⟨hinner, hmem⟩
      · rintro ⟨hinner, hmem⟩
        rcases h with h | h | h
        · omega
        · rw [Nat.mod_eq_of_lt h] at hmem
          exact ⟨hinner, hmem⟩
        · omega
    refine ⟨hsame.trans (hok.symm.trans hacc), fun hhost => ?_⟩
    obtain ⟨hinner, hmem⟩ := hfits.mp hhost
    have hlt := exactSlotWords_lt hmem
    refine ⟨partitionCount p.innerCount.toNat, _, ?_, rfl⟩
    rw [hB, checkConfigure_algorithmB, if_neg (by omega), Nat.mod_eq_of_lt hlt, if_neg (by omega)]
    rfl

/-- An empty inner side and `2 ^ 30 - 1` outer rows: the width wraps to zero, and the board
admits what the host refuses. -/
theorem admission_disagrees : ¬ AdmissionAgrees 0 1073741823 :=
  not_agrees (r := (1, 0)) (by decide +kernel) (by decide +kernel)

end FpgaHashJoin
