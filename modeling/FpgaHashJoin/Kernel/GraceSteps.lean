import FpgaHashJoin.Kernel.LinearSteps

/-!
# The parts of an Algorithm B session

Distribution of the rows over the partitions in external memory, and the join of the
partitions. `Stored` says that the slots of one side hold exactly the rows received so far,
each in the slot of its partition and in the order of arrival.
-/

namespace FpgaHashJoin

open Process EquiJoin KState StoreWhile

namespace GraceHashEngine

theorem partitionOf_lt (key : Int64) {K : Nat} (hK : 0 < K) : partitionOf key K < K :=
  Nat.mod_lt _ hK

theorem unpackTid_packTid (t : Tid) : unpackTid (packTid t) = t := by
  obtain ⟨blkno, offno⟩ := t
  have hblk : (((blkno.toUInt64 <<< 32) ||| (offno.toUInt64 <<< 16)) >>> 32).toUInt32 = blkno := by
    apply UInt32.eq_of_toBitVec_eq
    apply BitVec.eq_of_getLsbD_eq
    intro i hi
    simp only [UInt64.toBitVec_or, UInt64.toBitVec_shiftLeft, UInt64.toBitVec_shiftRight,
      UInt32.toBitVec_toUInt64, UInt16.toBitVec_toUInt64, UInt64.toBitVec_toUInt32,
      UInt64.toBitVec_ofNat, BitVec.getLsbD_or, BitVec.getLsbD_setWidth, BitVec.shiftLeft_eq',
      BitVec.ushiftRight_eq', BitVec.getLsbD_shiftLeft, BitVec.getLsbD_ushiftRight]
    have hoff : offno.toBitVec.getLsbD (32 + i - 16) = false :=
      BitVec.getLsbD_of_ge _ _ (by omega)
    grind
  have hoff : ((((blkno.toUInt64 <<< 32) ||| (offno.toUInt64 <<< 16)) >>> 16) &&&
      0xFFFF).toUInt16 = offno := by
    apply UInt16.eq_of_toBitVec_eq
    apply BitVec.eq_of_getLsbD_eq
    intro i hi
    have hmask : (0xFFFF : BitVec 64).getLsbD i = true := by
      have hall : ∀ j : Fin 16, (0xFFFF : BitVec 64).getLsbD j = true := by decide
      exact hall ⟨i, hi⟩
    simp only [UInt64.toBitVec_or, UInt64.toBitVec_and, UInt64.toBitVec_shiftLeft,
      UInt64.toBitVec_shiftRight, UInt32.toBitVec_toUInt64, UInt16.toBitVec_toUInt64,
      UInt64.toBitVec_toUInt16, UInt64.toBitVec_ofNat, BitVec.getLsbD_or, BitVec.getLsbD_and,
      BitVec.getLsbD_setWidth, BitVec.shiftLeft_eq', BitVec.ushiftRight_eq',
      BitVec.getLsbD_shiftLeft, BitVec.getLsbD_ushiftRight]
    grind
  have hcast : (packTid ⟨blkno, offno⟩).toUInt64 =
      (blkno.toUInt64 <<< 32) ||| (offno.toUInt64 <<< 16) := rfl
  rw [unpackTid, hcast, hblk, hoff]

/-! ## The layout of the slots -/

/-- The address of row `i` of partition `p`. -/
def Side.addr (side : Side) (p i : Nat) : Nat :=
  side.base + p * side.slotWords + i * graceWordsPerTuple

/-- The slots of `K` partitions are large enough and lie inside the memory. -/
structure Side.Valid (side : Side) (K : Nat) : Prop where
  slot : side.maxPerSlot * graceWordsPerTuple ≤ side.slotWords
  memory : side.base + K * side.slotWords ≤ graceDdr2TotalWords

theorem innerSide_valid (innerTotal : Nat) {K : Nat} (hK : K ≤ graceMaxK) :
    (innerSide innerTotal).Valid K := by
  have hslots := Nat.mul_le_mul_right graceInnerSlotWords hK
  have hmemory : graceMaxK * graceInnerSlotWords ≤ graceDdr2TotalWords := by decide
  exact ⟨Nat.le_refl graceInnerSlotWords, (Nat.zero_add _).le.trans (hslots.trans hmemory)⟩

theorem outerSide_valid (outerTotal : Nat) {K outerSlotWords : Nat}
    (hmemory : graceOuterAreaBase + K * outerSlotWords ≤ graceDdr2TotalWords) :
    (outerSide outerTotal outerSlotWords).Valid K :=
  ⟨Nat.div_mul_le_self _ _, hmemory⟩

/-- The inner area ends where the outer one begins. -/
theorem inner_below_outer (innerTotal outerTotal outerSlotW : Nat) {K : Nat} (hK : K ≤ graceMaxK) :
    (innerSide innerTotal).base + K * (innerSide innerTotal).slotWords ≤
      (outerSide outerTotal outerSlotW).base :=
  (Nat.zero_add _).le.trans (Nat.mul_le_mul_right graceInnerSlotWords hK)

theorem Side.addr_lt {side : Side} {K p i : Nat} (h : side.Valid K) (hp : p < K)
    (hi : i < side.maxPerSlot) : side.addr p i + 1 < side.base + K * side.slotWords := by
  have hslot := h.slot
  have hmul : (p + 1) * side.slotWords ≤ K * side.slotWords :=
    Nat.mul_le_mul_right _ hp
  rw [Nat.add_mul, Nat.one_mul] at hmul
  simp only [graceWordsPerTuple_eq] at hslot
  simp only [Side.addr, graceWordsPerTuple_eq]
  omega

/-- Different rows have different words. -/
theorem Side.addr_apart {side : Side} {K p q i j : Nat} (h : side.Valid K)
    (hi : i < side.maxPerSlot) (hj : j < side.maxPerSlot) (hne : p ≠ q ∨ i ≠ j) :
    side.addr p i ≠ side.addr q j ∧ side.addr p i ≠ side.addr q j + 1 ∧
      side.addr p i + 1 ≠ side.addr q j := by
  have hslot := h.slot
  simp only [graceWordsPerTuple_eq] at hslot
  simp only [Side.addr, graceWordsPerTuple_eq]
  rcases Nat.lt_trichotomy p q with hlt | rfl | hgt
  · have hmul : (p + 1) * side.slotWords ≤ q * side.slotWords := Nat.mul_le_mul_right _ hlt
    rw [Nat.add_mul, Nat.one_mul] at hmul
    omega
  · have hij : i ≠ j := by
      rcases hne with h | h
      · exact absurd rfl h
      · exact h
    omega
  · have hmul : (q + 1) * side.slotWords ≤ p * side.slotWords := Nat.mul_le_mul_right _ hgt
    rw [Nat.add_mul, Nat.one_mul] at hmul
    omega

/-- The slots hold exactly these rows. -/
def Stored (side : Side) (c : Conf) (ddr2 : Nat → Int64) (counts : Nat → Nat)
    (rows : List InputTuple) : Prop :=
  ∀ p < c.K, counts p = (partRows c p rows).length ∧
    (partRows c p rows).length ≤ side.maxPerSlot ∧
    ∀ i r, (partRows c p rows)[i]? = some r →
      ddr2 (side.addr p i) = r.key ∧ ddr2 (side.addr p i + 1) = packTid r.tid

theorem stored_nil (side : Side) (c : Conf) (ddr2 : Nat → Int64) :
    Stored side c ddr2 (fun _ => 0) [] := by
  intro p _
  refine ⟨rfl, Nat.zero_le _, ?_⟩
  intro i r hr
  simp [partRows, rowsOf] at hr

theorem partRows_append (c : Conf) (p : Nat) (rows rows' : List InputTuple) :
    partRows c p (rows ++ rows') = partRows c p rows ++ partRows c p rows' :=
  rowsOf_append _ _ _ _

theorem partRows_singleton (c : Conf) (p : Nat) (t : InputTuple) :
    partRows c p [t] = if partitionOf t.key c.K = p then [t] else [] := by
  by_cases h : partitionOf t.key c.K = p <;> simp [partRows, rowsOf, h]

/-- Storing one more row behind those of its partition. -/
theorem Stored.snoc {side : Side} {c : Conf} {ddr2 : Nat → Int64} {counts : Nat → Nat}
    {rows : List InputTuple} (h : Stored side c ddr2 counts rows) (hvalid : side.Valid c.K)
    (t : InputTuple) (hroom : counts (partitionOf t.key c.K) < side.maxPerSlot) :
    let p := partitionOf t.key c.K
    let idx := side.addr p (counts p)
    Stored side c (Function.update (Function.update ddr2 idx t.key) (idx + 1) (packTid t.tid))
      (Function.update counts p (counts p + 1)) (rows ++ [t]) := by
  intro p idx q hq
  obtain ⟨hcount, hmax, hcells⟩ := h q hq
  rw [partRows_append, partRows_singleton]
  by_cases hqp : p = q
  · subst hqp
    rw [if_pos rfl]
    refine ⟨by simp [hcount], by rw [List.length_append, ← hcount]; simp; omega, ?_⟩
    intro i r hr
    by_cases hi : i = counts p
    · obtain rfl : t = r := by
        rw [hi, hcount] at hr
        simpa using hr
      subst hi
      simp [idx]
    · have hlt : i < (partRows c p rows).length := by
        have hlen := (List.getElem?_eq_some_iff.mp hr).1
        rw [List.length_append, List.length_singleton] at hlen
        omega
      rw [List.getElem?_append_left hlt] at hr
      have hapart := Side.addr_apart (p := p) (q := p) hvalid (i := i) (j := counts p) (by omega)
        hroom (Or.inr hi)
      obtain ⟨hkey, htid⟩ := hcells i r hr
      constructor
      · rw [Function.update_of_ne hapart.2.1, Function.update_of_ne hapart.1, hkey]
      · rw [Function.update_of_ne (mt Nat.succ.inj hapart.1), Function.update_of_ne hapart.2.2,
        htid]
  · rw [if_neg hqp, List.append_nil, Function.update_of_ne (Ne.symm hqp)]
    refine ⟨hcount, hmax, ?_⟩
    intro i r hr
    have hi : i < side.maxPerSlot := by
      have hlen := (List.getElem?_eq_some_iff.mp hr).1
      omega
    have hapart := Side.addr_apart (p := q) (q := p) hvalid hi hroom (Or.inl (Ne.symm hqp))
    obtain ⟨hkey, htid⟩ := hcells i r hr
    constructor
    · rw [Function.update_of_ne hapart.2.1, Function.update_of_ne hapart.1, hkey]
    · rw [Function.update_of_ne (mt Nat.succ.inj hapart.1), Function.update_of_ne hapart.2.2,
        htid]

/-- Only the memory of the slots matters. -/
theorem Stored.congr {side : Side} {c : Conf} {ddr2 ddr2' : Nat → Int64} {counts : Nat → Nat}
    {rows : List InputTuple} (h : Stored side c ddr2 counts rows) (hvalid : side.Valid c.K)
    (hsame : ∀ a, a < side.base + c.K * side.slotWords → ddr2' a = ddr2 a) :
    Stored side c ddr2' counts rows := by
  intro p hp
  obtain ⟨hcount, hmax, hcells⟩ := h p hp
  refine ⟨hcount, hmax, ?_⟩
  intro i r hr
  have hi : i < side.maxPerSlot := by
    have hlen := (List.getElem?_eq_some_iff.mp hr).1
    omega
  have haddr := Side.addr_lt hvalid hp hi
  rw [hsame _ (by omega), hsame _ (by omega)]
  exact hcells i r hr

/-! ## Distribution -/

theorem partsFit_sublist {c : Conf} {limit : Nat} {rows rows' : List InputTuple}
    (h : partsFit c limit rows) (hsub : List.Sublist rows' rows) : partsFit c limit rows' := by
  intro p hp
  have hle : (partRows c p rows').length ≤ (partRows c p rows).length :=
    (hsub.filter _).length_le
  exact hle.trans (h p hp)

/-- One more row fits if its partition is not full. -/
theorem prefixClosed_partsFit (c : Conf) (limit : Nat) : PrefixClosed (partsFit c limit) :=
  fun hle h => partsFit_sublist h hle.sublist

theorem Stored.slots_fit {side : Side} {c : Conf} {ddr2 : Nat → Int64} {counts : Nat → Nat}
    {rows : List InputTuple} (h : Stored side c ddr2 counts rows) :
    partsFit c side.maxPerSlot rows :=
  fun p hp => (h p hp).2.1

theorem Stored.partsFit_snoc {side : Side} {c : Conf} {ddr2 : Nat → Int64} {counts : Nat → Nat}
    {rows : List InputTuple} (h : Stored side c ddr2 counts rows) (t : InputTuple)
    (hp : partitionOf t.key c.K < c.K) :
    partsFit c side.maxPerSlot (rows ++ [t]) ↔
      counts (partitionOf t.key c.K) < side.maxPerSlot := by
  constructor
  · intro hfit
    have hlen := hfit _ hp
    rw [partRows_append, partRows_singleton, if_pos rfl, List.length_append,
      List.length_singleton] at hlen
    have hcount := (h _ hp).1
    omega
  · intro hroom q hq
    obtain ⟨hcount, hmax, -⟩ := h q hq
    rw [partRows_append, partRows_singleton, List.length_append]
    by_cases hqp : partitionOf t.key c.K = q
    · subst hqp
      rw [if_pos rfl, List.length_singleton]
      omega
    · rw [if_neg hqp, List.length_nil]
      omega

/-- The variables of a distribution loop when `rows` have been stored. Memory below the slots
of this side is as it was. -/
structure PartRep (v : PartitionVars) (side : Side) (c : Conf) (ddr2 : Nat → Int64) (frame : Nat)
    (rows : List InputTuple) : Prop where
  noError : v.err = .none
  frame_eq : v.frame = frame
  received : v.received = rows.length
  stored : Stored side c v.ddr2 v.counts rows
  below : ∀ a, a < side.base → v.ddr2 a = ddr2 a

/-- What is fixed during the distribution of one side. -/
structure Distributes (side : Side) (c : Conf) (keytype : UInt8) : Prop where
  valid : side.Valid c.K
  keyType : KeyType.ofCode keytype = c.keyType
  K_pos : 0 < c.K
  K_le : c.K ≤ graceMaxK

section Distribution

variable {side : Side} {c : Conf} {keytype : UInt8} {v : PartitionVars} {ddr2 : Nat → Int64}
  {frame : Nat} {rows : List InputTuple}

theorem discardTuples_runs (hw : KeyType.ofCode keytype = c.keyType) (ts : List InputTuple) :
    Runs (Proc.forRange ts.length (fun _ _ => rxDiscardTuple keytype) ())
      (ts.flatMap (tupleReads c.keyType)) [] (.ret ()) := by
  have hone : ∀ t, Runs (rxDiscardTuple keytype) (tupleReads c.keyType t) [] (.ret ()) := by
    intro t
    have hsame : rxDiscardTuple keytype = rxTuple keytype >>= fun _ => pure () := by
      simp only [rxDiscardTuple, rxTuple, bind_assoc, pure_bind]
    rw [hsame, rxTuple_congr hw]
    exact (rxTuple_runs c.keyType t).seq_pure _
  induction ts using List.reverseRecOn with
  | nil => exact .refl _
  | append_singleton ts t ih =>
    rw [List.length_append, List.length_singleton, List.flatMap_append, List.flatMap_singleton]
    exact Runs.forRange_succ ih (hone t)

/-- One more row, stored behind those of its partition. -/
theorem PartRep.store (hv : PartRep v side c ddr2 frame rows) (hvalid : side.Valid c.K)
    (t : InputTuple) (hroom : v.counts (partitionOf t.key c.K) < side.maxPerSlot) :
    PartRep { v with
      ddr2 := Function.update (Function.update v.ddr2
          (side.addr (partitionOf t.key c.K) (v.counts (partitionOf t.key c.K))) t.key)
        (side.addr (partitionOf t.key c.K) (v.counts (partitionOf t.key c.K)) + 1) (packTid t.tid)
      counts := Function.update v.counts (partitionOf t.key c.K)
        (v.counts (partitionOf t.key c.K) + 1)
      received := v.received + 1 } side c ddr2 frame (rows ++ [t]) where
  noError := hv.noError
  frame_eq := hv.frame_eq
  received := by simp [hv.received]
  stored := hv.stored.snoc hvalid t hroom
  below a ha := by
    have hlow : side.base ≤
        side.addr (partitionOf t.key c.K) (v.counts (partitionOf t.key c.K)) := by
      simp only [Side.addr]
      omega
    rw [← hv.below a ha]
    exact (Function.update_of_ne (by omega) _ _).trans (Function.update_of_ne (by omega) _ _)

/-- A row that fits is stored. -/
theorem storeTuple_runs (hd : Distributes side c keytype) (hv : PartRep v side c ddr2 frame rows)
    (count i : Nat) (t : InputTuple)
    (hfit : partsFit c side.maxPerSlot (rows ++ [c.keyType.wire t])) :
    ∃ v', Runs (storeTuple side keytype c.K count v i) (tupleReads c.keyType t) [] (.ret v') ∧
      PartRep v' side c ddr2 frame (rows ++ [c.keyType.wire t]) := by
  have hp := partitionOf_lt (c.keyType.wire t).key hd.K_pos
  have hroom := (hv.stored.partsFit_snoc _ hp).mp hfit
  have haddr := Side.addr_lt hd.valid hp hroom
  have hmem := hd.valid.memory
  have hread : Runs (rxTuple keytype) (tupleReads c.keyType t) [] (.ret (c.keyType.wire t)) := by
    rw [rxTuple_congr hd.keyType]
    exact rxTuple_runs c.keyType t
  refine ⟨_, ?_, hv.store hd.valid _ hroom⟩
  rw [storeTuple, if_neg (not_not.mpr hv.noError)]
  refine hread.seq_then (Runs.seq_then (Runs.require (hp.trans_le hd.K_le)) ?_)
  rw [if_neg (by omega)]
  refine Runs.seq_then (Runs.require ?_) (.refl _)
  unfold Side.addr at haddr
  omega

/-- A row that does not fit ends the distribution; the rest of its frame is read and thrown
away before the error goes out. -/
theorem storeTuple_overflows (hd : Distributes side c keytype)
    (hv : PartRep v side c ddr2 frame rows) (count i : Nat) (t : InputTuple)
    (rest : List InputTuple) (hrest : rest.length = count - (i + 1))
    (hfit : ¬ partsFit c side.maxPerSlot (rows ++ [c.keyType.wire t])) :
    Takes (storeTuple side keytype c.K count v i) ((t :: rest).flatMap (tupleReads c.keyType))
      [.error FpgaError.overflow.code] { v with err := .overflow } := by
  have hp := partitionOf_lt (c.keyType.wire t).key hd.K_pos
  have hfull := (hv.stored.partsFit_snoc _ hp).not.mp hfit
  have hread : Runs (rxTuple keytype) (tupleReads c.keyType t) [] (.ret (c.keyType.wire t)) := by
    rw [rxTuple_congr hd.keyType]
    exact rxTuple_runs c.keyType t
  have hdiscard := discardTuples_runs hd.keyType rest
  rw [hrest] at hdiscard
  rw [List.flatMap_cons, storeTuple, if_neg (not_not.mpr hv.noError)]
  refine Takes.after hread ?_
  rw [← List.nil_append (rest.flatMap _)]
  refine Takes.after (Runs.require (hp.trans_le hd.K_le)) ?_
  rw [if_pos (by omega)]
  exact Takes.intro hdiscard ((Sends.put _).bind (Sends.pure _))

/-- The tuple loop of a frame: either all its rows fit, or the first one that does not ends
the distribution. -/
theorem storeTuples_runs (hd : Distributes side c keytype) (hv : PartRep v side c ddr2 frame rows)
    (ts : List InputTuple) {n : Nat} (hn : n ≤ ts.length) :
    if partsFit c side.maxPerSlot (rows ++ (ts.take n).map c.keyType.wire) then
      ∃ v', Runs (Proc.forRange n (storeTuple side keytype c.K ts.length) v)
          ((ts.take n).flatMap (tupleReads c.keyType)) [] (.ret v') ∧
        PartRep v' side c ddr2 frame (rows ++ (ts.take n).map c.keyType.wire)
    else ∃ v', Takes (Proc.forRange n (storeTuple side keytype c.K ts.length) v)
        (ts.flatMap (tupleReads c.keyType)) [.error FpgaError.overflow.code] v' ∧
      v'.err = .overflow ∧ Stored side c v'.ddr2 v'.counts
        (storeWhile (partsFit c side.maxPerSlot) rows ((ts.take n).map c.keyType.wire)) := by
  induction n with
  | zero =>
    have hfit : partsFit c side.maxPerSlot (rows ++ (ts.take 0).map c.keyType.wire) := by
      intro p hp
      simpa using (hv.stored p hp).2.1
    rw [if_pos hfit]
    exact ⟨v, .refl _, by simpa using hv⟩
  | succ n ih =>
    have ih := ih (by omega)
    have htake : ts.take (n + 1) = ts.take n ++ [ts[n]] := (List.take_append_getElem _).symm
    have hsplit : ts = ts.take n ++ ts[n] :: ts.drop (n + 1) := by
      rw [← List.drop_eq_getElem_cons, List.take_append_drop]
    rw [htake, List.map_append, ← List.append_assoc, List.map_singleton, Proc.forRange_succ_eq]
    by_cases hfit : partsFit c side.maxPerSlot (rows ++ (ts.take n).map c.keyType.wire)
    · rw [if_pos hfit] at ih
      obtain ⟨v', hrun, hv'⟩ := ih
      by_cases hnext : partsFit c side.maxPerSlot
          (rows ++ (ts.take n).map c.keyType.wire ++ [c.keyType.wire ts[n]])
      · obtain ⟨v'', hrun', hv''⟩ := storeTuple_runs hd hv' ts.length n ts[n] hnext
        rw [if_pos hnext, List.flatMap_append, List.flatMap_singleton]
        exact ⟨v'', hrun.seq_reads hrun', hv''⟩
      · have hover := storeTuple_overflows hd hv' ts.length n ts[n] (ts.drop (n + 1)) (by simp)
          hnext
        rw [if_neg hnext, storeWhile_snoc_full (prefixClosed_partsFit _ _) hfit hnext]
        refine ⟨{ v' with err := .overflow }, ?_, rfl, hv'.stored⟩
        have hreads : ts.flatMap (tupleReads c.keyType) =
            (ts.take n).flatMap (tupleReads c.keyType) ++
              (ts[n] :: ts.drop (n + 1)).flatMap (tupleReads c.keyType) := by
          rw [← List.flatMap_append, ← hsplit]
        rw [hreads]
        exact Takes.after hrun hover
    · rw [if_neg hfit] at ih
      obtain ⟨v', htakes, herr, hstored⟩ := ih
      have hnext : ¬ partsFit c side.maxPerSlot
          (rows ++ (ts.take n).map c.keyType.wire ++ [c.keyType.wire ts[n]]) := by
        intro h
        exact hfit (partsFit_sublist h (List.sublist_append_left _ _))
      rw [if_neg hnext, storeWhile_snoc_stuck (prefixClosed_partsFit _ _) hv.stored.slots_fit hfit]
      refine ⟨v', ?_, herr, hstored⟩
      have hskip : Sends (storeTuple side keytype c.K ts.length v' n) [] v' := by
        rw [storeTuple, if_pos (by rw [herr]; decide)]
        exact Sends.pure v'
      exact htakes.bind hskip

/-- **A DATA frame of a distribution phase.** -/
theorem partitionFrame_data (hd : Distributes side c keytype)
    (hv : PartRep v side c ddr2 frame rows) {ts : List InputTuple}
    (hlen : ts.length ≤ rxBufTuples) :
    if partsFit c side.maxPerSlot (rows ++ ts.map c.keyType.wire) then
      ∃ v', Takes (partitionFrame side keytype c.K c.sessionId v)
          (HostFrame.data side.msg c.keyType ts).reads
          [dataAck c side.phase side.total (rows ++ ts.map c.keyType.wire).length 0] (.inl v') ∧
        PartRep v' side c ddr2 (frame + 1) (rows ++ ts.map c.keyType.wire)
    else ∃ v', Takes (partitionFrame side keytype c.K c.sessionId v)
        (HostFrame.data side.msg c.keyType ts).reads [.error FpgaError.overflow.code] (.inr v') ∧
      v'.err ≠ .none := by
  have hreset : side.msg.type.code ≠ MsgType.reset.code := by
    cases side.msg <;> decide
  have hloop := storeTuples_runs hd hv ts (n := ts.length) le_rfl
  rw [List.take_length] at hloop
  have hcount := toNat_frameCount hlen
  by_cases hfit : partsFit c side.maxPerSlot (rows ++ ts.map c.keyType.wire)
  · rw [if_pos hfit] at hloop ⊢
    obtain ⟨v', hrun, hv'⟩ := hloop
    refine ⟨{ v' with frame := v'.frame + 1 }, ?_, hv'.noError, congrArg (· + 1) hv'.frame_eq,
      hv'.received, hv'.stored, hv'.below⟩
    refine Takes.header _ _ ?_
    rw [if_neg hreset, if_neg (not_not.mpr rfl), hcount]
    refine Takes.intro hrun ?_
    rw [partitionAck, if_neg (not_not.mpr hv'.noError), hv'.received]
    exact (Sends.put _).bind (Sends.pure _)
  · rw [if_neg hfit] at hloop ⊢
    obtain ⟨v', htakes, herr, -⟩ := hloop
    refine ⟨v', ?_, by rw [herr]; decide⟩
    refine Takes.header _ _ ?_
    rw [if_neg hreset, if_neg (not_not.mpr rfl), hcount]
    refine htakes.bind ?_
    rw [partitionAck, if_pos (by rw [herr]; decide)]
    exact Sends.pure _

theorem partitionFrame_reset (side : Side) (keytype : UInt8) (c : Conf) (v : PartitionVars) :
    ∃ v', Takes (partitionFrame side keytype c.K c.sessionId v) HostFrame.reset.reads
        [idleAck c.sessionId 0 0 0] (.inr v') ∧ v'.err ≠ .none := by
  refine ⟨{ v with err := .badState }, ?_, by simp⟩
  rw [HostFrame.reads, ← List.append_nil (headerReads _ _)]
  refine Takes.header _ _ ?_
  rw [if_pos rfl]
  apply Sends.takes
  exact (Sends.put _).bind (Sends.pure _)

theorem partitionFrame_reject (side : Side) (keytype : UInt8) (c : Conf) (v : PartitionVars)
    (type : MsgType) (count : Nat) (hreset : type ≠ .reset) (htype : type ≠ side.msg.type) :
    ∃ v', Takes (partitionFrame side keytype c.K c.sessionId v) (headerReads type count)
        [.error FpgaError.badState.code] (.inr v') ∧ v'.err ≠ .none := by
  refine ⟨{ v with err := .badState }, ?_, by simp⟩
  rw [← List.append_nil (headerReads _ _)]
  refine Takes.header _ _ ?_
  rw [if_neg (mt MsgType.code_inj.mp hreset), if_pos (mt MsgType.code_inj.mp htype)]
  apply Sends.takes
  exact (Sends.put _).bind (Sends.pure _)

end Distribution

/-! ## Join -/

/-- Both sides are in memory. -/
structure Loaded (c : Conf) (g : GraceHashEngine) (ddr2 : Nat → Int64)
    (inner outer : List InputTuple) : Prop where
  inner : Stored (innerSide c.innerTotal) c ddr2 g.innerCounts inner
  outer : Stored (outerSide c.outerTotal c.outerSlotW) c ddr2 g.outerCounts outer
  innerValid : (innerSide c.innerTotal).Valid c.K
  outerValid : (outerSide c.outerTotal c.outerSlotW).Valid c.K
  K_le : c.K ≤ graceMaxK

section Join

variable {c : Conf} {g : GraceHashEngine} {ddr2 : Nat → Int64} {inner outer : List InputTuple}
  {v : JoinVars} {p : Nat}

/-- Loading a stored row. -/
theorem Stored.load {side : Side} {counts : Nat → Nat} {rows : List InputTuple}
    (h : Stored side c ddr2 counts rows) (hvalid : side.Valid c.K) (hp : p < c.K) {i : Nat}
    {r : InputTuple} (hr : (partRows c p rows)[i]? = some r) :
    Sends (loadTuple ddr2 (side.addr p i)) [] r := by
  obtain ⟨-, hmax, hcells⟩ := h p hp
  have hlen := (List.getElem?_eq_some_iff.mp hr).1
  have haddr := Side.addr_lt hvalid hp (hlen.trans_le hmax)
  have hmem := hvalid.memory
  obtain ⟨hkey, htid⟩ := hcells i r hr
  have heq : (ddr2 (side.addr p i), unpackTid (ddr2 (side.addr p i + 1))) = r := by
    rw [hkey, htid, unpackTid_packTid]
  rw [← heq]
  exact (Sends.require (by omega)).bind_quiet (Sends.pure _)

/-- The table of a partition is built from the first `n` of its rows. -/
theorem joinBuilds_sends (hl : Loaded c g ddr2 inner outer) (hp : p < c.K)
    (hv : v.err = .none) (htable : v.ht.Holds []) {n : Nat}
    (hn : n ≤ (partRows c p inner).length) :
    if LinearHashTable.fits ((partRows c p inner).take n) then
      ∃ ht, Sends (Proc.forRange n (joinBuild ddr2 p) v) [] { v with ht } ∧
        ht.Holds ((partRows c p inner).take n)
    else ∃ v', Sends (Proc.forRange n (joinBuild ddr2 p) v) [.error FpgaError.overflow.code] v' ∧
      v'.err = .overflow := by
  induction n with
  | zero =>
    rw [List.take_zero, if_pos LinearHashTable.fits_nil]
    exact ⟨v.ht, Sends.pure v, htable⟩
  | succ n ih =>
    have ih := ih (by omega)
    have htake : (partRows c p inner).take (n + 1) =
        (partRows c p inner).take n ++ [(partRows c p inner)[n]] :=
      (List.take_append_getElem _).symm
    rw [htake]
    by_cases hfits : LinearHashTable.fits ((partRows c p inner).take n)
    · rw [if_pos hfits] at ih
      obtain ⟨ht, hsend, hht⟩ := ih
      have hload := hl.inner.load hl.innerValid hp (List.getElem?_eq_getElem (by omega : n < _))
      have haddr : (innerSide c.innerTotal).addr p n =
          p * graceInnerSlotWords + n * graceWordsPerTuple := by
        simp [Side.addr, innerSide]
      rw [haddr] at hload
      have hbuild := hht.build (partRows c p inner)[n]
      split at hbuild
      next hnext =>
        rw [if_pos hnext]
        obtain ⟨ht', steps, heq, hht'⟩ := hbuild
        have hstep : Sends (joinBuild ddr2 p { v with ht } n) [] { v with ht := ht' } := by
          rw [joinBuild, if_neg (not_not.mpr hv)]
          refine hload.bind_quiet ?_
          simp only [heq, ne_eq, not_true_eq_false, if_false]
          exact Sends.pure _
        exact ⟨ht', hsend.forRange_succ hstep, hht'⟩
      next hnext =>
        rw [if_neg hnext]
        obtain ⟨steps, heq⟩ := hbuild
        refine ⟨{ v with ht, err := .overflow }, ?_, rfl⟩
        refine hsend.forRange_succ ?_
        rw [joinBuild, if_neg (not_not.mpr hv)]
        refine hload.bind_quiet ?_
        simp only [heq, ne_eq, reduceCtorEq, not_false_eq_true, if_true]
        exact (Sends.put _).bind (Sends.pure _)
    · rw [if_neg hfits] at ih
      obtain ⟨v', hsend, herr⟩ := ih
      have hnext : ¬ LinearHashTable.fits
          ((partRows c p inner).take n ++ [(partRows c p inner)[n]]) := by
        intro h
        exact hfits (LinearHashTable.fits_sublist h (List.sublist_append_left _ _))
      rw [if_neg hnext]
      refine ⟨v', ?_, herr⟩
      have hskip : Sends (joinBuild ddr2 p v' n) [] v' := by
        rw [joinBuild, if_pos (by rw [herr]; decide)]
        exact Sends.pure v'
      exact hsend.forRange_succ hskip

/-- The variables of the probe loop of a partition: the table holds `rows`, the buffer `buf`. -/
structure JoinRep (v : JoinVars) (rows : List InputTuple) (buf : List ResultPair)
    (matched : Nat) : Prop where
  noError : v.err = .none
  table : v.ht.Holds rows
  pairs : bufferedPairs v.resultBuf v.bufCnt = buf
  room : buf.length < txBufSize
  matched_eq : v.matched = matched

/-- Probing with one stored row. -/
theorem joinProbe_sends {rows : List InputTuple} {buf : List ResultPair} {matched j : Nat}
    {t : InputTuple} (hv : JoinRep v rows buf matched)
    (hload : Sends (loadTuple ddr2
      (graceOuterAreaBase + p * c.outerSlotW + j * graceWordsPerTuple)) [] t) :
    ∃ v', Sends (joinProbe ddr2 c.outerSlotW p v j)
        ((Batching.push txBufSize buf (join rows [t])).1.map .results) v' ∧
      JoinRep v' rows (Batching.push txBufSize buf (join rows [t])).2
        (matched + (join rows [t]).length) := by
  have hprobe : (v.ht.probe t.key).1 = firstMatch rows t.key := hv.table.probe t.key
  have hcnt : v.bufCnt = buf.length := by rw [← hv.pairs, length_bufferedPairs]
  have hroom := hv.room
  cases hfound : firstMatch rows t.key with
  | none =>
    have hjoin : join rows [t] = [] := join_singleton_none hfound
    rw [hjoin]
    refine ⟨v, ?_, hv⟩
    refine hload.bind_quiet ?_
    simp only [hprobe, hfound]
    exact Sends.pure v
  | some innerTid =>
    have hjoin : join rows [t] = [(innerTid, t.tid)] := join_singleton_some hfound
    have hpairs : bufferedPairs (Function.update v.resultBuf v.bufCnt (innerTid, t.tid))
        (v.bufCnt + 1) = buf ++ [(innerTid, t.tid)] := by
      rw [bufferedPairs_update, hv.pairs]
    let v₁ : JoinVars := { v with
      resultBuf := Function.update v.resultBuf v.bufCnt (innerTid, t.tid)
      bufCnt := v.bufCnt + 1
      matched := v.matched + 1 }
    rw [hjoin]
    by_cases hfull : buf.length + 1 = txBufSize
    · rw [Batching.push_full _ hfull.ge]
      refine ⟨{ v₁ with bufCnt := 0 }, ?_, hv.noError, hv.table, rfl, by simp [txBufSize_eq],
        congrArg (· + 1) hv.matched_eq⟩
      refine hload.bind_quiet ?_
      simp only [hprobe, hfound]
      refine (Sends.require (by omega)).bind_quiet ?_
      rw [if_pos (by rw [hcnt]; exact hfull), hpairs]
      exact (Sends.put _).bind (Sends.pure _)
    · rw [Batching.push_room _ (by omega)]
      refine ⟨v₁, ?_, hv.noError, hv.table, hpairs, ?_, congrArg (· + 1) hv.matched_eq⟩
      · refine hload.bind_quiet ?_
        simp only [hprobe, hfound]
        refine (Sends.require (by omega)).bind_quiet ?_
        rw [if_neg (by rw [hcnt]; exact hfull)]
        exact Sends.pure _
      · rw [List.length_append, List.length_singleton]
        omega

/-- Probing with the first `n` rows of the outer partition. -/
theorem joinProbes_sends (hl : Loaded c g ddr2 inner outer) (hp : p < c.K)
    {rows : List InputTuple} {matched : Nat} (hv : JoinRep v rows [] matched) {n : Nat}
    (hn : n ≤ (partRows c p outer).length) :
    ∃ v', Sends (Proc.forRange n (joinProbe ddr2 c.outerSlotW p) v)
        ((Batching.push txBufSize [] (join rows ((partRows c p outer).take n))).1.map .results) v' ∧
      JoinRep v' rows (Batching.push txBufSize [] (join rows ((partRows c p outer).take n))).2
        (matched + (join rows ((partRows c p outer).take n)).length) := by
  induction n with
  | zero => exact ⟨v, Sends.pure v, hv⟩
  | succ n ih =>
    obtain ⟨v', hsend, hv'⟩ := ih (by omega)
    have htake : (partRows c p outer).take (n + 1) =
        (partRows c p outer).take n ++ [(partRows c p outer)[n]] :=
      (List.take_append_getElem _).symm
    have hload := hl.outer.load hl.outerValid hp (List.getElem?_eq_getElem (by omega : n < _))
    obtain ⟨v'', hsend', hv''⟩ := joinProbe_sends hv' hload
    refine ⟨v'', ?_, ?_⟩
    · rw [htake, join_append, Batching.push_append, List.map_append]
      exact hsend.forRange_succ hsend'
    · rw [htake, join_append, Batching.push_append, List.length_append, ← Nat.add_assoc]
      exact hv''

/-- **One partition is joined, or its table overflows.** -/
theorem joinPartition_sends (hl : Loaded c g ddr2 inner outer) (hp : p < c.K)
    (hv : v.err = .none) :
    if LinearHashTable.fits (partRows c p inner) then
      ∃ v', Sends (joinPartition g ddr2 c.outerSlotW v p)
          ((Batching.batches txBufSize (partJoin c inner outer p)).map .results) v' ∧
        v'.err = .none ∧ v'.matched = v.matched + (partJoin c inner outer p).length
    else ∃ v', Sends (joinPartition g ddr2 c.outerSlotW v p)
        [.error FpgaError.overflow.code] v' ∧ v'.err = .overflow := by
  have hrequire : Sends (Proc.require (p < graceMaxK)) [] () :=
    Sends.require (hp.trans_le hl.K_le)
  have hbuild := joinBuilds_sends (v := { v with ht := v.ht.reset }) hl hp hv
    (LinearHashTable.Holds.reset v.ht) le_rfl
  rw [List.take_length, ← (hl.inner p hp).1] at hbuild
  by_cases hfits : LinearHashTable.fits (partRows c p inner)
  · rw [if_pos hfits] at hbuild ⊢
    obtain ⟨ht, hsend, hht⟩ := hbuild
    have hstart : JoinRep { v with ht, bufCnt := 0 } (partRows c p inner) [] v.matched :=
      ⟨hv, hht, rfl, by decide, rfl⟩
    obtain ⟨v', hsend', hv'⟩ := joinProbes_sends hl hp hstart le_rfl
    rw [List.take_length, ← (hl.outer p hp).1] at hsend'
    rw [List.take_length] at hv'
    refine ⟨v', ?_, hv'.noError, hv'.matched_eq⟩
    rw [joinPartition, if_neg (not_not.mpr hv), Batching.batches, List.map_append]
    refine hrequire.bind_quiet (hsend.bind_quiet ?_)
    rw [if_neg (not_not.mpr hv)]
    refine hsend'.bind ?_
    have hflush : Sends (Proc.when (0 < v'.bufCnt)
        (Proc.put (.results (bufferedPairs v'.resultBuf v'.bufCnt))))
        ((Batching.flush (bufferedPairs v'.resultBuf v'.bufCnt)).map .results) () := by
      by_cases hzero : v'.bufCnt = 0
      · rw [Proc.when, if_neg (by omega), hzero]
        exact Sends.pure ()
      · have hne : bufferedPairs v'.resultBuf v'.bufCnt ≠ [] := by
          intro hnil
          have hlen := congrArg List.length hnil
          rw [length_bufferedPairs] at hlen
          exact hzero hlen
        rw [Proc.when, if_pos (by omega), Batching.flush, if_neg hne]
        exact Sends.put _
    rw [partJoin, ← hv'.pairs]
    exact hflush.then_pure _
  · rw [if_neg hfits] at hbuild ⊢
    obtain ⟨v', hsend, herr⟩ := hbuild
    refine ⟨v', ?_, herr⟩
    rw [joinPartition, if_neg (not_not.mpr hv)]
    refine hrequire.bind_quiet ?_
    rw [← List.append_nil [KOut.error FpgaError.overflow.code]]
    refine hsend.bind ?_
    rw [if_pos (by rw [herr]; decide)]
    exact Sends.pure v'

theorem joinParts_snoc (c : Conf) (inner outer : List InputTuple) (ps : List Nat) (p : Nat) :
    joinParts c inner outer (ps ++ [p]) =
      if (joinParts c inner outer ps).2 then
        ((joinParts c inner outer ps).1 ++ (joinParts c inner outer [p]).1,
          (joinParts c inner outer [p]).2)
      else joinParts c inner outer ps := by
  induction ps with
  | nil => simp [joinParts]
  | cons q ps ih =>
    by_cases hfits : LinearHashTable.fits (partRows c q inner)
    · simp only [List.cons_append, joinParts, if_pos hfits, ih]
      split <;> simp
    · simp [joinParts, hfits]

/-- **The partitions are joined one after the other, up to one that overflows.** -/
theorem joinAllPartitions_sends (hl : Loaded c g ddr2 inner outer) (ht : LinearHashTable)
    (resultBuf : Nat → ResultPair) :
    let r := joinParts c inner outer (List.range c.K)
    ∃ v', Sends (joinAllPartitions g c.K c.outerSlotW ddr2 ht resultBuf) r.1 v' ∧
      if r.2 then v'.err = .none ∧
        v'.matched = ((List.range c.K).flatMap (partJoin c inner outer)).length
      else v'.err = .overflow := by
  have hloop : ∀ n ≤ c.K,
      ∃ v', Sends (Proc.forRange n (joinPartition g ddr2 c.outerSlotW) ⟨ht, resultBuf, 0, 0, .none⟩)
          (joinParts c inner outer (List.range n)).1 v' ∧
        if (joinParts c inner outer (List.range n)).2 then v'.err = .none ∧
          v'.matched = ((List.range n).flatMap (partJoin c inner outer)).length
        else v'.err = .overflow := by
    intro n
    induction n with
    | zero =>
      intro _
      exact ⟨_, Sends.pure _, rfl, rfl⟩
    | succ n ih =>
      intro hn
      obtain ⟨v', hsend, hv'⟩ := ih (by omega)
      rw [List.range_succ, joinParts_snoc]
      by_cases hok : (joinParts c inner outer (List.range n)).2 = true
      · rw [if_pos hok] at hv' ⊢
        obtain ⟨herr, hmatched⟩ := hv'
        have hpart := joinPartition_sends hl (by omega : n < c.K) herr
        by_cases hfits : LinearHashTable.fits (partRows c n inner)
        · rw [if_pos hfits] at hpart
          obtain ⟨v'', hsend', herr', hmatched'⟩ := hpart
          refine ⟨v'', ?_, ?_⟩
          · simp only [joinParts, if_pos hfits, List.append_nil]
            exact hsend.forRange_succ hsend'
          · simp only [joinParts, if_pos hfits, if_true]
            refine ⟨herr', ?_⟩
            rw [hmatched', hmatched]
            simp
        · rw [if_neg hfits] at hpart
          obtain ⟨v'', hsend', herr'⟩ := hpart
          refine ⟨v'', ?_, ?_⟩
          · simp only [joinParts, if_neg hfits]
            exact hsend.forRange_succ hsend'
          · simpa [joinParts, hfits] using herr'
      · rw [if_neg hok] at hv' ⊢
        refine ⟨v', ?_, by rw [if_neg hok]; exact hv'⟩
        have hskip : Sends (joinPartition g ddr2 c.outerSlotW v' n) [] v' := by
          rw [joinPartition, if_pos (by rw [hv']; decide)]
          exact Sends.pure v'
        rw [← List.append_nil (joinParts c inner outer (List.range n)).1]
        exact hsend.forRange_succ hskip
  exact hloop c.K le_rfl

end Join

end GraceHashEngine

end FpgaHashJoin
