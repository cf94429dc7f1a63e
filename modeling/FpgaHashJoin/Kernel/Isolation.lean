import FpgaHashJoin.Kernel.HashJoinKernel
import FpgaHashJoin.Process.AllRuns

/-!
# Isolation of sessions

The hash table, the partition counters, the external memory and the buffers keep what
earlier sessions have left in them. A session never reads any of it: two kernels that differ
arbitrarily in these variables behave the same on every stream of bytes.

`Stale` collects the variables in question, and `s.withStale x` is the session `s` with other
contents. Every part of a session mirrors itself under such an exchange, as long as the
entries it will read agree: the slots of the table that are in use, the pairs that have been
buffered, the tuples of the current frame, the words of the stored tuples.
-/

namespace FpgaHashJoin

open Process GraceHashEngine

/-- What a session finds of earlier ones. -/
structure Stale where
  ht : LinearHashTable
  grace : GraceHashEngine
  ddr2Buf : Nat → Int64
  resultBuf : Nat → ResultPair
  rxKeyBuf : Nat → Int64
  rxTidBuf : Nat → Tid
  regs : Registers

def Session.withStale (s : Session) (x : Stale) : Session :=
  { s with
    ht := x.ht
    grace := x.grace
    ddr2Buf := x.ddr2Buf
    resultBuf := x.resultBuf
    rxKeyBuf := x.rxKeyBuf
    rxTidBuf := x.rxTidBuf
    regs := x.regs }

/-- The stale variables as they are. -/
def Session.stale (s : Session) : Stale :=
  ⟨s.ht, s.grace, s.ddr2Buf, s.resultBuf, s.rxKeyBuf, s.rxTidBuf, s.regs⟩

/-- The sessions differ in stale variables only. -/
def Session.Like (s t : Session) : Prop := ∃ x, t = s.withStale x

theorem Session.Like.of_eq {s t : Session} (h : t = s.withStale t.stale) : s.Like t := ⟨_, h⟩

/-! ## The hash table -/

namespace LinearHashTable

/-- The same slots are in use, with the same rows. -/
structure Like (h h' : LinearHashTable) : Prop where
  valid : h.htValid = h'.htValid
  rows : h.rowCount = h'.rowCount
  key : ∀ s, h.htValid s = true → h.htKey s = h'.htKey s
  blk : ∀ s, h.htValid s = true → h.htBlk s = h'.htBlk s
  off : ∀ s, h.htValid s = true → h.htOff s = h'.htOff s

theorem Like.reset (h h' : LinearHashTable) : Like h.reset h'.reset where
  valid := rfl
  rows := rfl
  key _ hs := by cases hs
  blk _ hs := by cases hs
  off _ hs := by cases hs

variable {h h' : LinearHashTable}

private theorem update_like {β : Type} {f f' : Fin htSlots → β} {v : Fin htSlots → Bool}
    {s x : Fin htSlots} {b : β} (hlike : ∀ s, v s = true → f s = f' s)
    (hx : Function.update v s true x = true) :
    Function.update f s b x = Function.update f' s b x := by
  by_cases hxs : x = s
  · subst hxs
    simp
  · simp only [Function.update_of_ne hxs] at hx ⊢
    exact hlike x hx

theorem Like.store (hl : Like h h') (s : Fin htSlots) (key : Int64) (tid : Tid) :
    Like (h.store s key tid) (h'.store s key tid) where
  valid := by simp [LinearHashTable.store, hl.valid]
  rows := by simp [LinearHashTable.store, hl.rows]
  key _ hx := update_like hl.key hx
  blk _ hx := update_like hl.blk hx
  off _ hx := update_like hl.off hx

theorem Like.buildLoop (hl : Like h h') (key : Int64) (tid : Tid) (left step : Nat) :
    (h.buildLoop key tid left step).1 = (h'.buildLoop key tid left step).1 ∧
      Like (h.buildLoop key tid left step).2.1 (h'.buildLoop key tid left step).2.1 ∧
      (h.buildLoop key tid left step).2.2 = (h'.buildLoop key tid left step).2.2 := by
  induction left generalizing step with
  | zero => exact ⟨rfl, hl, rfl⟩
  | succ left ih =>
    by_cases hv : h.htValid (slot key step) = true
    · have hv' : h'.htValid (slot key step) = true := hl.valid ▸ hv
      simp only [LinearHashTable.buildLoop, hv, hv', if_true]
      exact ih (step + 1)
    · have hv' : ¬ h'.htValid (slot key step) = true := hl.valid ▸ hv
      simp only [LinearHashTable.buildLoop, if_neg hv, if_neg hv']
      exact ⟨trivial, hl.store _ key tid, trivial⟩

theorem Like.build (hl : Like h h') (key : Int64) (tid : Tid) :
    (h.build key tid).1 = (h'.build key tid).1 ∧
      Like (h.build key tid).2.1 (h'.build key tid).2.1 ∧
      (h.build key tid).2.2 = (h'.build key tid).2.2 := by
  unfold LinearHashTable.build
  rw [← hl.rows]
  split
  · exact ⟨rfl, hl, rfl⟩
  · exact hl.buildLoop key tid _ _

theorem Like.probe (hl : Like h h') (key : Int64) : h.probe key = h'.probe key := by
  unfold LinearHashTable.probe
  generalize maxProbeDist = left, 0 = step
  induction left generalizing step with
  | zero => rfl
  | succ left ih =>
    by_cases hv : h.htValid (slot key step) = true
    · have hv' : h'.htValid (slot key step) = true := hl.valid ▸ hv
      simp only [LinearHashTable.probeLoop, hv, hv', if_true, hl.key _ hv, hl.blk _ hv,
        hl.off _ hv, ih]
    · have hv' : ¬ h'.htValid (slot key step) = true := hl.valid ▸ hv
      simp only [LinearHashTable.probeLoop, if_neg hv, if_neg hv']

end LinearHashTable

theorem bufferedPairs_congr {buf buf' : Nat → ResultPair} {count : Nat}
    (h : ∀ j < count, buf j = buf' j) : bufferedPairs buf count = bufferedPairs buf' count :=
  List.map_congr_left fun j hj => h j (List.mem_range.mp hj)

/-- A pair that is added to agreeing buffers. -/
theorem update_agree {buf buf' : Nat → ResultPair} {count : Nat}
    (h : ∀ j < count, buf j = buf' j) (p : ResultPair) :
    ∀ j < count + 1, Function.update buf count p j = Function.update buf' count p j := by
  intro j hj
  by_cases hjc : j = count
  · subst hjc
    simp
  · simp only [Function.update_of_ne hjc]
    exact h j (by omega)

/-! ## Algorithm B -/

namespace GraceHashEngine

/-- The two words of a stored tuple. -/
def storedAt (side : Side) (counts : Nat → Nat) : Set Nat :=
  { a | ∃ p i, i < counts p ∧
    (a = side.base + p * side.slotWords + i * graceWordsPerTuple ∨
      a = side.base + p * side.slotWords + i * graceWordsPerTuple + 1) }

variable {side : Side} {B : Set Nat} {keytype sessionId : UInt8} {K : Nat}

/-- The distribution loops differ in words that hold no stored tuple. -/
def PartitionVars.Like (B : Set Nat) (side : Side) (v w : PartitionVars) : Prop :=
  ∃ d, w = { v with ddr2 := d } ∧ ∀ a ∈ B ∪ storedAt side v.counts, v.ddr2 a = d a

/-- Both memories get the same tuple, in the slot behind the stored ones. -/
theorem agree_store {d d' : Nat → Int64} {counts : Nat → Nat} {p idx : Nat} {x y : Int64}
    (h : ∀ a ∈ B ∪ storedAt side counts, d a = d' a)
    (hidx : idx = side.base + p * side.slotWords + counts p * graceWordsPerTuple) :
    ∀ a ∈ B ∪ storedAt side (Function.update counts p (counts p + 1)),
      Function.update (Function.update d idx x) (idx + 1) y a =
        Function.update (Function.update d' idx x) (idx + 1) y a := by
  intro a ha
  by_cases h₁ : a = idx + 1
  · simp [h₁]
  by_cases h₀ : a = idx
  · simp [h₀]
  simp only [Function.update_of_ne h₁, Function.update_of_ne h₀]
  apply h
  rcases ha with ha | ⟨q, i, hi, ha⟩
  · exact Or.inl ha
  · refine Or.inr ⟨q, i, ?_, ha⟩
    by_cases hq : q = p
    · subst hq
      rw [Function.update_self] at hi
      -- the last tuple of the partition is the new one, and `a` is none of its words
      have hne : i ≠ counts q := by
        rintro rfl
        rw [← hidx] at ha
        exact ha.elim h₀ h₁
      omega
    · rwa [Function.update_of_ne hq] at hi

variable {v w : PartitionVars}

theorem storeTuple_mirrors (count i : Nat) (h : v.Like B side w) :
    Mirrors (PartitionVars.Like B side) (storeTuple side keytype K count v i)
      (storeTuple side keytype K count w i) := by
  obtain ⟨d, rfl, hd⟩ := h
  unfold storeTuple
  dsimp only
  split
  · exact .pure ⟨d, rfl, hd⟩
  · refine .bind_refl fun t => .bind_refl fun _ => ?_
    split
    · exact .bind_refl fun _ => .bind_refl fun _ => .pure ⟨d, rfl, hd⟩
    · exact .bind_refl fun _ => .pure ⟨_, rfl, agree_store hd rfl⟩

theorem partitionAck_mirrors (h : v.Like B side w) :
    Mirrors (Sum.LiftRel (PartitionVars.Like B side) (PartitionVars.Like B side))
      (partitionAck side sessionId v) (partitionAck side sessionId w) := by
  obtain ⟨d, rfl, hd⟩ := h
  unfold partitionAck
  dsimp only
  split
  · exact .pure (.inr ⟨d, rfl, hd⟩)
  · exact .bind_refl fun _ => .pure (.inl ⟨d, rfl, hd⟩)

theorem partitionBody_mirrors (h : v.Like B side w) :
    Mirrors (Sum.LiftRel (PartitionVars.Like B side) (PartitionVars.Like B side))
      (partitionBody side keytype K sessionId v) (partitionBody side keytype K sessionId w) := by
  obtain ⟨d, rfl, hd⟩ := h
  have hlike : v.Like B side { v with ddr2 := d } := ⟨d, rfl, hd⟩
  unfold partitionBody
  dsimp only
  split
  · exact .pure (.inr hlike)
  split
  · exact .pure (.inr hlike)
  unfold partitionFrame
  refine .bind_refl fun msgType => .bind_refl fun count => ?_
  split
  · exact .bind_refl fun _ => .pure (.inr ⟨d, rfl, hd⟩)
  split
  · exact .bind_refl fun _ => .pure (.inr ⟨d, rfl, hd⟩)
  · refine Mirrors.bind (Mirrors.forRange (fun _ => PartitionVars.Like B side) hlike ?_) ?_
    · intro i _ v' w' h'
      exact storeTuple_mirrors _ i h'
    · intro v' w' h'
      exact partitionAck_mirrors h'

theorem buildPartitions_mirrors {d d' : Nat → Int64} {counts : Nat → Nat}
    (h : ∀ a ∈ B ∪ storedAt side counts, d a = d' a) :
    Mirrors (PartitionVars.Like B side) (buildPartitions side keytype K sessionId d counts)
      (buildPartitions side keytype K sessionId d' counts) :=
  Mirrors.iter (PartitionVars.Like B side) ⟨d', rfl, h⟩ fun _ _ => partitionBody_mirrors

/-- The join loops differ in free slots of the table and in unused entries of the result
buffer. -/
def JoinVars.Like (v w : JoinVars) : Prop :=
  ∃ ht buf, w = { v with ht := ht, resultBuf := buf } ∧ v.ht.Like ht ∧
    ∀ j < v.bufCnt, v.resultBuf j = buf j

theorem loadTuple_congr {d d' : Nat → Int64} {idx : Nat} (h₀ : d idx = d' idx)
    (h₁ : d (idx + 1) = d' (idx + 1)) : loadTuple d idx = loadTuple d' idx := by
  unfold loadTuple
  rw [h₀, h₁]

section Join

variable {d d' : Nat → Int64} {v w : JoinVars} {p : Nat}

theorem joinBuild_mirrors {i : Nat} (hload : loadTuple d (p * graceInnerSlotWords + i *
      graceWordsPerTuple) = loadTuple d' (p * graceInnerSlotWords + i * graceWordsPerTuple))
    (h : v.Like w) : Mirrors JoinVars.Like (joinBuild d p v i) (joinBuild d' p w i) := by
  obtain ⟨ht, buf, rfl, hht, hbuf⟩ := h
  unfold joinBuild
  dsimp only
  split
  · exact .pure ⟨ht, buf, rfl, hht, hbuf⟩
  · rw [hload]
    refine .bind_refl fun t => ?_
    obtain ⟨herr, hht', -⟩ := hht.build t.key t.tid
    rw [← herr]
    split
    · exact .bind_refl fun _ => .pure ⟨_, buf, rfl, hht', hbuf⟩
    · exact .pure ⟨_, buf, rfl, hht', hbuf⟩

theorem joinProbe_mirrors {outerSlotWords j : Nat}
    (hload : loadTuple d (graceOuterAreaBase + p * outerSlotWords + j * graceWordsPerTuple) =
      loadTuple d' (graceOuterAreaBase + p * outerSlotWords + j * graceWordsPerTuple))
    (h : v.Like w) :
    Mirrors JoinVars.Like (joinProbe d outerSlotWords p v j)
      (joinProbe d' outerSlotWords p w j) := by
  obtain ⟨ht, buf, rfl, hht, hbuf⟩ := h
  unfold joinProbe
  rw [hload]
  refine .bind_refl fun t => ?_
  dsimp only
  rw [hht.probe t.key]
  split
  · exact .pure ⟨ht, buf, rfl, hht, hbuf⟩
  next innerTid _ =>
    refine .bind_refl fun _ => ?_
    have hbuf' := update_agree hbuf (innerTid, t.tid)
    split
    · rw [bufferedPairs_congr hbuf']
      exact .bind_refl fun _ => .pure ⟨ht, _, rfl, hht, by simp⟩
    · exact .pure ⟨ht, _, rfl, hht, hbuf'⟩

variable {g : GraceHashEngine} {outerSlotWords : Nat}

/-- Between two partitions the whole table may differ: it is cleared for the next one. -/
def JoinVars.Between (v w : JoinVars) : Prop :=
  ∃ ht buf, w = { v with ht := ht, resultBuf := buf } ∧ ∀ j < v.bufCnt, v.resultBuf j = buf j

theorem JoinVars.Like.between (h : v.Like w) : v.Between w := by
  obtain ⟨ht, buf, rfl, -, hbuf⟩ := h
  exact ⟨ht, buf, rfl, hbuf⟩

theorem joinPartition_mirrors
    (hinner : ∀ i < g.innerCounts p, loadTuple d (p * graceInnerSlotWords + i *
      graceWordsPerTuple) = loadTuple d' (p * graceInnerSlotWords + i * graceWordsPerTuple))
    (houter : ∀ j < g.outerCounts p,
      loadTuple d (graceOuterAreaBase + p * outerSlotWords + j * graceWordsPerTuple) =
        loadTuple d' (graceOuterAreaBase + p * outerSlotWords + j * graceWordsPerTuple))
    (h : v.Between w) :
    Mirrors JoinVars.Between (joinPartition g d outerSlotWords v p)
      (joinPartition g d' outerSlotWords w p) := by
  obtain ⟨ht, buf, rfl, hbuf⟩ := h
  unfold joinPartition
  dsimp only
  split
  · exact .pure ⟨ht, buf, rfl, hbuf⟩
  refine .bind_refl fun _ => Mirrors.bind (Mirrors.forRange (fun _ => JoinVars.Like)
    ⟨ht.reset, buf, rfl, .reset _ _, hbuf⟩ fun i hi v' w' h' => ?_) ?_
  · exact joinBuild_mirrors (hinner i hi) h'
  rintro v' _ ⟨ht', buf', rfl, hht', hbuf'⟩
  dsimp only
  split
  · exact .pure ⟨ht', buf', rfl, hbuf'⟩
  refine Mirrors.bind (Mirrors.forRange (fun _ => JoinVars.Like)
    ⟨ht', buf', rfl, hht', by simp⟩ fun j hj v' w' h' => ?_) ?_
  · exact joinProbe_mirrors (houter j hj) h'
  rintro v'' _ ⟨ht'', buf'', rfl, hht'', hbuf''⟩
  dsimp only
  rw [bufferedPairs_congr hbuf'']
  exact .bind_refl fun _ => .pure ⟨ht'', buf'', rfl, hbuf''⟩

theorem joinAllPartitions_mirrors {ht ht' : LinearHashTable} {buf buf' : Nat → ResultPair}
    {outerTotal : Nat}
    (h : ∀ a ∈ storedAt (innerSide 0) g.innerCounts ∪
      storedAt (outerSide outerTotal outerSlotWords) g.outerCounts, d a = d' a) :
    Mirrors JoinVars.Between (joinAllPartitions g K outerSlotWords d ht buf)
      (joinAllPartitions g K outerSlotWords d' ht' buf') := by
  refine Mirrors.forRange (fun _ => JoinVars.Between) ⟨ht', buf', rfl, by simp⟩ ?_
  intro p _ v' w' h'
  refine joinPartition_mirrors (fun i hi => ?_) (fun j hj => ?_) h'
  · have hbase : (innerSide 0).base + p * (innerSide 0).slotWords + i * graceWordsPerTuple =
        p * graceInnerSlotWords + i * graceWordsPerTuple := by simp [innerSide]
    rw [← hbase]
    exact loadTuple_congr (h _ (.inl ⟨p, i, hi, .inl rfl⟩)) (h _ (.inl ⟨p, i, hi, .inr rfl⟩))
  · exact loadTuple_congr (h _ (.inr ⟨p, j, hj, .inl rfl⟩)) (h _ (.inr ⟨p, j, hj, .inr rfl⟩))

end Join

end GraceHashEngine

/-- Like sessions with nothing in the result buffer of Algorithm A. -/
def Session.Fresh (s t : Session) : Prop := s.Like t ∧ s.resultBufCnt = 0

theorem Session.Fresh.of_eq {s t : Session} (h : t = s.withStale t.stale)
    (hcnt : s.resultBufCnt = 0) : s.Fresh t :=
  ⟨⟨_, h⟩, hcnt⟩

theorem graceSession_mirrors {s t : Session} (h : s.Fresh t) :
    Mirrors Session.Fresh (graceSession s) (graceSession t) := by
  obtain ⟨⟨x, rfl⟩, hcnt⟩ := h
  unfold graceSession
  refine Mirrors.bind (buildPartitions_mirrors (B := ∅) (by simp [storedAt])) ?_
  rintro v _ ⟨d, rfl, hd⟩
  unfold graceProbe
  dsimp only
  split
  · exact .pure (.of_eq rfl hcnt)
  refine Mirrors.bind (buildPartitions_mirrors (B := storedAt (innerSide 0) v.counts) ?_) ?_
  · intro a ha
    apply hd
    rcases ha with ha | ⟨p, i, hi, -⟩
    · exact Or.inr ha
    · exact absurd hi (Nat.not_lt_zero i)
  · rintro v' _ ⟨d', rfl, hd'⟩
    unfold graceJoin
    dsimp only
    split
    · exact .pure (.of_eq rfl hcnt)
    refine Mirrors.bind (joinAllPartitions_mirrors hd') ?_
    rintro j _ ⟨ht, buf, rfl, -⟩
    dsimp only
    split
    · exact .pure (.of_eq rfl hcnt)
    · exact .pure (.of_eq rfl hcnt)

/-! ## Algorithm A -/

/-- Sessions that agree on everything the loops of Algorithm A will read: the table in use,
the buffered pairs, and `n` tuples of the receive buffers. -/
def Session.Active (n : Nat) (s t : Session) : Prop :=
  ∃ x, t = s.withStale x ∧ s.ht.Like x.ht ∧
    (∀ j < s.resultBufCnt, s.resultBuf j = x.resultBuf j) ∧
    ∀ i < n, s.rxKeyBuf i = x.rxKeyBuf i ∧ s.rxTidBuf i = x.rxTidBuf i

theorem Session.Active.of_eq {n : Nat} {s t : Session} (h : t = s.withStale t.stale)
    (hht : s.ht.Like t.ht) (hbuf : ∀ j < s.resultBufCnt, s.resultBuf j = t.resultBuf j)
    (hrx : ∀ i < n, s.rxKeyBuf i = t.rxKeyBuf i ∧ s.rxTidBuf i = t.rxTidBuf i) :
    s.Active n t :=
  ⟨_, h, hht, hbuf, hrx⟩

theorem Session.Active.like {n : Nat} {s t : Session} (h : s.Active n t) : s.Like t := by
  obtain ⟨x, hx, -⟩ := h
  exact ⟨x, hx⟩

theorem Session.Active.weaken {n : Nat} {s t : Session} (h : s.Active n t) : s.Active 0 t := by
  obtain ⟨x, hx, hht, hbuf, -⟩ := h
  exact ⟨x, hx, hht, hbuf, by simp⟩

/-- Every received tuple makes the buffers agree on one more. -/
theorem rxBatch_mirrors {s t : Session} (count : Nat) (h : s.Active 0 t) :
    Mirrors (Session.Active count) (rxBatch count s) (rxBatch count t) := by
  refine Mirrors.forRange (fun i => Session.Active i) h ?_
  rintro i - s' _ ⟨x, rfl, hht, hbuf, hrx⟩
  refine .bind_refl fun tup => .bind_refl fun _ => .pure (.of_eq rfl hht hbuf fun j hj => ?_)
  by_cases hji : j = i
  · subst hji
    simp
  · have hj' := hrx j (by omega)
    simp only [Function.update_of_ne hji]
    exact hj'

/-- The build loops at the same point, with agreeing sessions. -/
def BuildVars.Like (n : Nat) (v w : BuildVars) : Prop :=
  ∃ t, w = { v with s := t } ∧ v.s.Active n t

theorem BuildVars.Like.of_eq {n : Nat} {v w : BuildVars} (h : w = { v with s := w.s })
    (hs : v.s.Active n w.s) : v.Like n w :=
  ⟨_, h, hs⟩

section Build

variable {b : Build} {n : Nat} {v w : BuildVars}

theorem innerBatch_mirrors {i : Nat} (hi : i < n) (h : v.Like n w) :
    Mirrors (BuildVars.Like n) (innerBatch v i) (innerBatch w i) := by
  obtain ⟨_, rfl, x, rfl, hht, hbuf, hrx⟩ := h
  have hv : v.Like n { v with s := v.s.withStale x } := ⟨_, rfl, x, rfl, hht, hbuf, hrx⟩
  have hrun : (v.s.withStale x).sessionDone = v.s.sessionDone := rfl
  obtain ⟨herr, hht', hsteps⟩ := hht.build (v.s.rxKeyBuf i) (v.s.rxTidBuf i)
  unfold innerBatch
  dsimp only
  rw [hrun]
  split
  · exact .pure hv
  refine .bind_refl fun _ => ?_
  have hkey : (v.s.withStale x).rxKeyBuf i = v.s.rxKeyBuf i := (hrx i hi).1.symm
  have htid : (v.s.withStale x).rxTidBuf i = v.s.rxTidBuf i := (hrx i hi).2.symm
  have hxht : (v.s.withStale x).ht = x.ht := rfl
  rw [hkey, htid, hxht, ← herr, ← hsteps]
  split
  · exact .bind_refl fun _ => .pure (.of_eq rfl (.of_eq rfl hht' hbuf hrx))
  · exact .pure (.of_eq rfl (.of_eq rfl hht' hbuf hrx))

theorem buildAck_mirrors (h : v.Like n w) :
    Mirrors (BuildVars.Like n) (buildAck v) (buildAck w) := by
  obtain ⟨_, rfl, x, rfl, hht, hbuf, hrx⟩ := h
  have hv : v.Like n { v with s := v.s.withStale x } := ⟨_, rfl, x, rfl, hht, hbuf, hrx⟩
  unfold buildAck
  refine .ite Iff.rfl (fun _ => .pure hv) fun _ => ?_
  refine .ite Iff.rfl (fun _ => ?_) fun _ => ?_
  · exact .bind_refl fun _ => .pure (.of_eq rfl (.of_eq rfl hht hbuf hrx))
  · exact .pure (.of_eq rfl (.of_eq rfl hht hbuf hrx))

theorem buildTuples_mirrors {count : UInt16} (h : v.Like count.toNat w) :
    Mirrors (Sum.LiftRel (BuildVars.Like 0) (BuildVars.Like 0)) (buildTuples b count v)
      (buildTuples b count w) := by
  have hkey : count ≠ 0 → v.s.rxKeyBuf 0 = w.s.rxKeyBuf 0 := by
    intro hc
    obtain ⟨_, rfl, x, rfl, -, -, hrx⟩ := h
    exact (hrx 0 (Nat.pos_of_ne_zero fun h0 => hc (UInt16.toNat_inj.mp h0))).1
  unfold buildTuples
  refine Mirrors.bind (R := fun _ _ => True) ?_ fun _ _ _ => ?_
  · unfold Proc.when
    refine .ite Iff.rfl (fun hc => ?_) fun _ => .pure trivial
    rw [hkey hc]
    exact (Mirrors.refl _).mono fun _ _ _ => trivial
  refine Mirrors.bind (Mirrors.forRange (fun _ => BuildVars.Like count.toNat) h
    fun i hi v' w' h' => innerBatch_mirrors hi h') fun v' w' h' => ?_
  refine Mirrors.bind (buildAck_mirrors h') ?_
  rintro v' _ ⟨_, rfl, hs⟩
  exact .pure (.inl (.of_eq rfl hs.weaken))

theorem buildBody_mirrors (h : v.Like 0 w) :
    Mirrors (Sum.LiftRel (BuildVars.Like 0) (BuildVars.Like 0)) (buildBody b v)
      (buildBody b w) := by
  obtain ⟨_, rfl, x, rfl, hht, hbuf, hrx⟩ := h
  have hv : v.Like 0 { v with s := v.s.withStale x } := ⟨_, rfl, x, rfl, hht, hbuf, hrx⟩
  unfold buildBody
  refine .ite Iff.rfl (fun _ => .pure (.inr hv)) fun _ =>
    .ite Iff.rfl (fun _ => .pure (.inr hv)) fun _ => ?_
  unfold buildFrame
  refine .bind_refl fun first => ?_
  cases first with
  | none => exact .pure (.inr (.of_eq rfl (.of_eq rfl hht hbuf hrx)))
  | some msgType =>
    refine .bind_refl fun count => ?_
    refine .ite Iff.rfl (fun _ => ?_) fun _ => .ite Iff.rfl (fun _ => ?_) fun _ => ?_
    · exact .bind_refl fun _ =>
        .pure (.inr (.of_eq rfl (.of_eq rfl (.reset _ _) hbuf hrx)))
    · exact .bind_refl fun _ => .pure (.inr (.of_eq rfl (.of_eq rfl hht hbuf hrx)))
    · refine Mirrors.bind (rxBatch_mirrors _ (.of_eq rfl hht hbuf hrx)) fun s t hst => ?_
      exact buildTuples_mirrors (.of_eq rfl hst)

end Build

/-- The probe loops at the same point, with agreeing sessions. -/
def ProbeVars.Like (n : Nat) (v w : ProbeVars) : Prop :=
  ∃ t, w = { v with s := t } ∧ v.s.Active n t

theorem ProbeVars.Like.of_eq {n : Nat} {v w : ProbeVars} (h : w = { v with s := w.s })
    (hs : v.s.Active n w.s) : v.Like n w :=
  ⟨_, h, hs⟩

section Probe

variable {b : Build} {n innerReceived : Nat} {v w : ProbeVars}

theorem flushResultBatch_mirrors (h : v.Like n w) :
    Mirrors (ProbeVars.Like n) (flushResultBatch v) (flushResultBatch w) := by
  obtain ⟨_, rfl, x, rfl, hht, hbuf, hrx⟩ := h
  have hv : v.Like n { v with s := v.s.withStale x } := ⟨_, rfl, x, rfl, hht, hbuf, hrx⟩
  have hpairs : bufferedPairs v.s.resultBuf v.s.resultBufCnt =
      bufferedPairs (v.s.withStale x).resultBuf (v.s.withStale x).resultBufCnt :=
    bufferedPairs_congr hbuf
  unfold flushResultBatch
  refine .ite Iff.rfl (fun _ => .pure hv) fun _ => ?_
  dsimp only
  rw [hpairs]
  exact .bind_refl fun _ => .pure (.of_eq rfl (.of_eq rfl hht
    (fun j hj => absurd hj (Nat.not_lt_zero j)) hrx))

theorem probeHit_mirrors (p : ResultPair) (h : v.Like n w) :
    Mirrors (ProbeVars.Like n) (probeHit v p) (probeHit w p) := by
  obtain ⟨_, rfl, x, rfl, hht, hbuf, hrx⟩ := h
  have hstored : (v.storePair p).Like n
      (ProbeVars.storePair { v with s := v.s.withStale x } p) :=
    .of_eq rfl (.of_eq rfl hht (update_agree hbuf p) hrx)
  unfold probeHit
  refine .bind_refl fun _ => Mirrors.bind (R := ProbeVars.Like n) ?_ ?_
  · exact .ite Iff.rfl (fun _ => flushResultBatch_mirrors hstored) fun _ => .pure hstored
  · rintro v' _ ⟨_, rfl, hs⟩
    exact .pure (.of_eq rfl hs)

theorem outerBatch_mirrors {i : Nat} (hi : i < n) (h : v.Like n w) :
    Mirrors (ProbeVars.Like n) (outerBatch b v i) (outerBatch b w i) := by
  obtain ⟨_, rfl, x, rfl, hht, hbuf, hrx⟩ := h
  have hkey : (v.s.withStale x).rxKeyBuf i = v.s.rxKeyBuf i := (hrx i hi).1.symm
  have htid : (v.s.withStale x).rxTidBuf i = v.s.rxTidBuf i := (hrx i hi).2.symm
  have hprobe : (v.s.withStale x).ht.probe (v.s.rxKeyBuf i) = v.s.ht.probe (v.s.rxKeyBuf i) :=
    (hht.probe _).symm
  unfold outerBatch
  refine .bind_refl fun _ => ?_
  dsimp only
  rw [hkey, htid, hprobe]
  refine .bind_refl fun _ => ?_
  split
  · exact .pure (.of_eq rfl (.of_eq rfl hht hbuf hrx))
  · exact probeHit_mirrors _ (.of_eq rfl (.of_eq rfl hht hbuf hrx))

theorem probeDone_mirrors (h : v.Like n w) :
    Mirrors (ProbeVars.Like n) (probeDone b innerReceived v) (probeDone b innerReceived w) := by
  obtain ⟨_, rfl, x, rfl, hht, hbuf, hrx⟩ := h
  unfold probeDone
  exact .bind_refl fun _ => .bind_refl fun _ => .pure (.of_eq rfl (.of_eq rfl hht hbuf hrx))

theorem probeAck_mirrors (h : v.Like n w) :
    Mirrors (ProbeVars.Like n) (probeAck v) (probeAck w) := by
  obtain ⟨_, rfl, x, rfl, hht, hbuf, hrx⟩ := h
  unfold probeAck
  refine .ite Iff.rfl (fun _ => ?_) fun _ => ?_
  · exact .bind_refl fun _ => .pure (.of_eq rfl (.of_eq rfl hht hbuf hrx))
  · exact .pure (.of_eq rfl (.of_eq rfl hht hbuf hrx))

theorem probeTuples_mirrors {count : UInt16} (h : v.Like count.toNat w) :
    Mirrors (Sum.LiftRel (ProbeVars.Like 0) (ProbeVars.Like 0))
      (probeTuples b innerReceived count v) (probeTuples b innerReceived count w) := by
  have hkey : count ≠ 0 → v.s.rxKeyBuf 0 = w.s.rxKeyBuf 0 := by
    intro hc
    obtain ⟨_, rfl, x, rfl, -, -, hrx⟩ := h
    exact (hrx 0 (Nat.pos_of_ne_zero fun h0 => hc (UInt16.toNat_inj.mp h0))).1
  have hremaining : w.s.outerTotal - w.outerReceived = v.s.outerTotal - v.outerReceived := by
    obtain ⟨_, rfl, x, rfl, -⟩ := h
    rfl
  unfold probeTuples
  refine Mirrors.bind (R := fun _ _ => True) ?_ fun _ _ _ => ?_
  · unfold Proc.when
    refine .ite Iff.rfl (fun hc => ?_) fun _ => .pure trivial
    rw [hkey hc]
    exact (Mirrors.refl _).mono fun _ _ _ => trivial
  dsimp only
  rw [hremaining]
  refine Mirrors.bind (Mirrors.forRange (fun _ => ProbeVars.Like count.toNat) h
    fun i hi v' w' h' => outerBatch_mirrors (by omega) h') ?_
  rintro v' _ ⟨_, rfl, x, rfl, hht, hbuf, hrx⟩
  refine .ite Iff.rfl (fun _ => ?_) fun _ => ?_
  · refine Mirrors.bind (flushResultBatch_mirrors (.of_eq rfl (.of_eq rfl hht hbuf hrx))) ?_
    rintro v₁ _ ⟨_, rfl, hs₁⟩
    refine Mirrors.bind (probeDone_mirrors (.of_eq rfl hs₁)) ?_
    rintro v₂ _ ⟨_, rfl, hs₂⟩
    exact .pure (.inl (.of_eq rfl hs₂.weaken))
  · refine Mirrors.bind (probeAck_mirrors (.of_eq rfl (.of_eq rfl hht hbuf hrx))) ?_
    rintro v₁ _ ⟨_, rfl, hs₁⟩
    exact .pure (.inl (.of_eq rfl hs₁.weaken))

theorem probeBody_mirrors (h : v.Like 0 w) :
    Mirrors (Sum.LiftRel (ProbeVars.Like 0) (ProbeVars.Like 0)) (probeBody b innerReceived v)
      (probeBody b innerReceived w) := by
  obtain ⟨_, rfl, x, rfl, hht, hbuf, hrx⟩ := h
  have hv : v.Like 0 { v with s := v.s.withStale x } := ⟨_, rfl, x, rfl, hht, hbuf, hrx⟩
  unfold probeBody
  refine .ite Iff.rfl (fun _ => .pure (.inr hv)) fun _ =>
    .ite Iff.rfl (fun _ => .pure (.inr hv)) fun _ => ?_
  unfold probeFrame
  refine .bind_refl fun first => ?_
  cases first with
  | none => exact .pure (.inr (.of_eq rfl (.of_eq rfl hht hbuf hrx)))
  | some msgType =>
    refine .bind_refl fun count => ?_
    refine .ite Iff.rfl (fun _ => ?_) fun _ => .ite Iff.rfl (fun _ => ?_) fun _ => ?_
    · refine Mirrors.bind (flushResultBatch_mirrors (.of_eq rfl (.of_eq rfl hht hbuf hrx))) ?_
      rintro v' _ ⟨_, rfl, x', rfl, -, hbuf', hrx'⟩
      exact .bind_refl fun _ =>
        .pure (.inr (.of_eq rfl (.of_eq rfl (.reset _ _) hbuf' hrx')))
    · exact .bind_refl fun _ => .pure (.inr (.of_eq rfl (.of_eq rfl hht hbuf hrx)))
    · refine Mirrors.bind (rxBatch_mirrors _ (.of_eq rfl hht hbuf hrx)) fun s t hst => ?_
      exact probeTuples_mirrors (.of_eq rfl hst)

end Probe

theorem linearSession_mirrors {b : Build} {s t : Session} (h : s.Fresh t) :
    Mirrors Session.Like (linearSession b s) (linearSession b t) := by
  obtain ⟨⟨x, rfl⟩, hcnt⟩ := h
  have hstart : BuildVars.Like 0 ⟨{ s with ht := s.ht.reset }, 0, 0, 0, 0⟩
      ⟨{ s.withStale x with ht := (s.withStale x).ht.reset }, 0, 0, 0, 0⟩ :=
    .of_eq rfl (.of_eq rfl (.reset _ _) (by simp [hcnt]) (by simp))
  unfold linearSession
  refine Mirrors.bind (Mirrors.iter (BuildVars.Like 0) hstart fun _ _ => buildBody_mirrors) ?_
  rintro v _ ⟨_, rfl, x', rfl, hht, hbuf, hrx⟩
  have hprobe : ProbeVars.Like 0 ⟨v.s.setStatus .probing, 0, 0, 0, 0⟩
      ⟨(v.s.withStale x').setStatus .probing, 0, 0, 0, 0⟩ :=
    .of_eq rfl (.of_eq rfl hht hbuf hrx)
  unfold linearProbe
  refine .ite Iff.rfl (fun _ => .pure (.of_eq rfl)) fun _ => .bind_refl fun _ => ?_
  refine Mirrors.bind (Mirrors.iter (ProbeVars.Like 0) hprobe fun _ _ => probeBody_mirrors) ?_
  rintro w _ ⟨_, rfl, hs⟩
  exact .pure hs.like

/-! ## The session -/

section Session

variable {b : Build} {s t : Session}

theorem configure_mirrors (h : s.Fresh t) :
    Mirrors Session.Fresh (configure b s) (configure b t) := by
  obtain ⟨⟨x, rfl⟩, hcnt⟩ := h
  unfold configure
  refine .bind_refl fun first => ?_
  cases first with
  | none => exact .pure (.of_eq rfl hcnt)
  | some msgType =>
    refine .bind_refl fun count => .ite Iff.rfl (fun _ => ?_) fun _ =>
      .ite Iff.rfl (fun _ => ?_) fun _ => ?_
    · exact .bind_refl fun _ => .bind_refl fun _ => .pure (.of_eq rfl hcnt)
    · exact .bind_refl fun _ => .pure (.of_eq rfl hcnt)
    · refine .bind_refl fun p => ?_
      unfold accept
      refine .bind_refl fun _ => ?_
      split
      · exact .bind_refl fun _ => .pure (.of_eq rfl hcnt)
      · exact .bind_refl fun _ => .pure (.of_eq rfl hcnt)

theorem done_mirrors (h : s.Like t) : Mirrors Session.Like (done b s) (done b t) := by
  obtain ⟨x, rfl⟩ := h
  unfold done
  refine .bind_refl fun _ => .ite Iff.rfl (fun _ => ?_) fun _ => ?_
  · exact .bind_refl fun _ => .bind_refl fun _ => .pure (.of_eq rfl)
  · exact .bind_refl fun _ => .pure (.of_eq rfl)

theorem afterLinear_mirrors (h : s.Like t) :
    Mirrors Session.Like (afterLinear b s) (afterLinear b t) := by
  obtain ⟨x, rfl⟩ := h
  exact .ite Iff.rfl (fun _ => .pure (.of_eq rfl)) fun _ => done_mirrors (.of_eq rfl)

theorem afterGrace_mirrors (h : s.Fresh t) :
    Mirrors Session.Like (afterGrace b s) (afterGrace b t) := by
  obtain ⟨⟨x, rfl⟩, hcnt⟩ := h
  unfold afterGrace
  refine .ite Iff.rfl (fun _ => ?_) fun _ => afterLinear_mirrors (.of_eq rfl)
  exact Mirrors.bind (linearSession_mirrors (.of_eq rfl hcnt)) fun _ _ => afterLinear_mirrors

theorem afterConfigure_mirrors (h : s.Fresh t) :
    Mirrors Session.Like (afterConfigure b s) (afterConfigure b t) := by
  obtain ⟨⟨x, rfl⟩, hcnt⟩ := h
  unfold afterConfigure
  refine .ite Iff.rfl (fun _ => ?_) fun _ => afterGrace_mirrors (.of_eq rfl hcnt)
  exact Mirrors.bind (graceSession_mirrors (.of_eq rfl hcnt)) fun _ _ => afterGrace_mirrors

theorem session_mirrors (b : Build) (s t : Session) :
    Mirrors Session.Like (session b s) (session b t) := by
  unfold session
  exact .bind_refl fun _ => Mirrors.bind (configure_mirrors (.of_eq rfl rfl)) fun _ _ =>
    afterConfigure_mirrors

end Session

/-- **A session depends on nothing that earlier sessions have left behind.** Whatever the
variables hold, the same bytes are read, the same frames are written, and the session ends
after the same bytes. -/
theorem session_isolated (b : Build) (s t : Session) (ins : List (Site × Option UInt8))
    (outs : List TxFrame) :
    ((∃ q, Runs (session b s) ins outs q) ↔ ∃ q, Runs (session b t) ins outs q) ∧
      ((∃ r, Runs (session b s) ins outs (.ret r)) ↔
        ∃ r, Runs (session b t) ins outs (.ret r)) := by
  have hruns : ∀ s t : Session, (∃ q, Runs (session b s) ins outs q) →
      ∃ q, Runs (session b t) ins outs q := by
    rintro s t ⟨q, hq⟩
    obtain ⟨q', hq', -⟩ := session_mirrors b s t ins outs q hq
    exact ⟨q', hq'⟩
  have hends : ∀ s t : Session, (∃ r, Runs (session b s) ins outs (.ret r)) →
      ∃ r, Runs (session b t) ins outs (.ret r) := by
    rintro s t ⟨r, hr⟩
    obtain ⟨q', hq', hret⟩ := session_mirrors b s t ins outs _ hr
    obtain ⟨r', rfl, -⟩ := hret r rfl
    exact ⟨r', hq'⟩
  exact ⟨⟨hruns s t, hruns t s⟩, hends s t, hends t s⟩

end FpgaHashJoin
