import FpgaHashJoin.Host.Protocol

/-!
# The client between two acknowledgements

A kernel that acknowledges whole batches keeps the client aligned: the client has sent the
first `s` batches of its rows, and the first `m` of them are acknowledged. The module says what
the client does with such an acknowledgement. If the window holds two batches, the client never
waits with fewer than two batches under way, unless these are the last ones (`fill_aligned`).
-/

namespace FpgaHashJoin

open Process CreditWindow

/-- Batch `i` of the rows. -/
def chunk {α : Type} (rows : List α) (b i : Nat) : List α := (rows.drop (i * b)).take b

section Chunk

variable {α : Type} {rows : List α} {b i : Nat}

theorem take_succ_chunk (rows : List α) (b i : Nat) :
    rows.take ((i + 1) * b) = rows.take (i * b) ++ chunk rows b i := by
  rw [Nat.add_mul, Nat.one_mul, List.take_add]
  rfl

theorem length_chunk (rows : List α) (b i : Nat) :
    (chunk rows b i).length = batchSize b rows.length i := by
  rw [chunk, List.length_take, List.length_drop]
  rfl

theorem length_take_chunks (rows : List α) (b i : Nat) :
    (rows.take (i * b)).length = itemsUpTo b rows.length i :=
  List.length_take

end Chunk

namespace JoinCall

variable (j : JoinCall)

/-- The packets with the batches from `s` up to `s'`. -/
def chunkPackets (msg : DataMsg) (rows : List InputTuple) (s s' : Nat) : List Packet :=
  (List.range' s (s' - s)).map fun i => [.data msg j.config.keyType (chunk rows j.batch i)]

variable {j} {msg : DataMsg} {rows : List InputTuple} {m s t : Nat} {v : Window}

theorem chunkPackets_self (msg : DataMsg) (rows : List InputTuple) (s : Nat) :
    j.chunkPackets msg rows s s = [] := by
  simp [chunkPackets]

theorem chunkPackets_cons (msg : DataMsg) (rows : List InputTuple) {s s' : Nat} (h : s < s') :
    j.chunkPackets msg rows s s' =
      [.data msg j.config.keyType (chunk rows j.batch s)] :: j.chunkPackets msg rows (s + 1) s' := by
  rw [chunkPackets, show s' - s = s' - (s + 1) + 1 by omega, List.range'_succ, List.map_cons]
  rfl

/-- The batch that is sent next. -/
theorem take_drop_sent (h : Aligned j.batch rows.length m s v) (hlt : s * j.batch < rows.length) :
    (rows.drop v.sent).take (batchSize j.batch rows.length s) = chunk rows j.batch s := by
  have hsize : batchSize j.batch rows.length s = min j.batch (rows.length - s * j.batch) := rfl
  rw [h.sent, itemsUpTo_of_lt hlt, hsize, ← List.length_drop, chunk]
  exact (List.take_eq_take_min).symm

/-- **Sending keeps the window aligned**, and it goes as far as slots, rows and credit allow. -/
theorem rowPackets_aligned (msg : DataMsg) (slots : Nat) (h : Aligned j.batch rows.length m s v) :
    ∃ s', s ≤ s' ∧ s' ≤ s + slots ∧
      Aligned j.batch rows.length m s' (v.fill j.batch rows.length slots) ∧
      j.rowPackets msg rows slots v = j.chunkPackets msg rows s s' ∧
      ∀ t ≤ s + slots, (∀ i < t, i * j.batch < rows.length) →
        itemsUpTo j.batch rows.length t ≤ itemsUpTo j.batch rows.length s + v.credit → t ≤ s' := by
  have hb : 0 < j.batch := j.client.batch_pos
  induction slots generalizing s v with
  | zero =>
    refine ⟨s, le_rfl, le_rfl, h, (chunkPackets_self msg rows s).symm, ?_⟩
    intro t ht _ _
    exact ht
  | succ slots ih =>
    unfold rowPackets Window.fill
    cases hnext : v.next j.batch rows.length with
    | none =>
      refine ⟨s, le_rfl, by omega, h, (chunkPackets_self msg rows s).symm, ?_⟩
      intro t _ hlt hcredit
      by_contra hts
      have hs : s * j.batch < rows.length := hlt s (by omega)
      have hmono : itemsUpTo j.batch rows.length (s + 1) ≤ itemsUpTo j.batch rows.length t :=
        itemsUpTo_mono _ _ (by omega)
      have hsucc := itemsUpTo_succ j.batch rows.length s
      have hsome := (h.next_eq_some hb).mpr ⟨hs, by omega⟩
      rw [hnext] at hsome
      cases hsome
    | some k =>
      obtain ⟨hs, rfl, hk⟩ := h.next_eq hb hnext
      obtain ⟨s', hle, hslots, haligned, hpackets, hmax⟩ := ih (h.push hs)
      refine ⟨s', by omega, by omega, haligned, ?_, ?_⟩
      · show _ :: j.rowPackets msg rows slots _ = _
        rw [hpackets, chunkPackets_cons msg rows hle, take_drop_sent h hs]
      · intro t ht hlt hcredit
        have hsucc := itemsUpTo_succ j.batch rows.length s
        have hpush : (v.push (batchSize j.batch rows.length s)).credit =
            v.credit - batchSize j.batch rows.length s := rfl
        refine hmax t (by omega) hlt ?_
        rw [hpush]
        omega

/-- There are batches if and only if there are rows. -/
theorem batchCount_pos : 0 < batchCount j.batch rows.length ↔ rows ≠ [] := by
  rw [lt_batchCount j.client.batch_pos, Nat.zero_mul, List.length_pos_iff]

/-- How far the client gets when `m` batches are acknowledged: two batches further, if the window
has room for them and there are so many. -/
def ahead (j : JoinCall) (rows : List InputTuple) (m : Nat) : Nat :=
  min (batchCount j.batch rows.length) (m + min 2 j.window)

theorem lt_ahead (hmore : m < batchCount j.batch rows.length) : m < j.ahead rows m := by
  have hw : 0 < j.window := j.client.window_pos
  unfold ahead
  omega

/-- The window has room for two batches, or there are no two. -/
def Paced (j : JoinCall) (rows : List InputTuple) : Prop :=
  2 ≤ j.window ∨ rows.length ≤ j.batch

/-- A paced client has two batches under way, or the last ones. -/
theorem Paced.ahead_eq (hpace : j.Paced rows) (m : Nat) :
    j.ahead rows m = min (batchCount j.batch rows.length) (m + 2) := by
  have hb : 0 < j.batch := j.client.batch_pos
  have hw : 0 < j.window := j.client.window_pos
  unfold ahead
  rcases hpace with hpace | hfew
  · omega
  · have hone : ¬ 1 < batchCount j.batch rows.length := by
      rw [lt_batchCount hb, Nat.one_mul]
      omega
    omega

/-- **The client sends until it is ahead**, if the credit pays for two batches. -/
theorem fill_aligned (msg : DataMsg) (h : Aligned j.batch rows.length m s v)
    (hopen : s ≤ m + j.window)
    (hcredit : itemsUpTo j.batch rows.length (m + 2) ≤
      itemsUpTo j.batch rows.length s + v.credit) :
    ∃ s', s ≤ s' ∧ s' ≤ m + j.window ∧ j.ahead rows m ≤ s' ∧
      Aligned j.batch rows.length m s' (j.filled rows v) ∧
      j.windowPackets msg rows v = j.chunkPackets msg rows s s' := by
  have hb : 0 < j.batch := j.client.batch_pos
  obtain ⟨s', hle, hslots, haligned, hpackets, hmax⟩ :=
    rowPackets_aligned msg (j.window - v.inflight.length) h
  rw [h.length_inflight] at haligned hpackets hslots hmax
  have hms := h.le
  have hfilled : j.filled rows v = v.fill j.batch rows.length (j.window - (s - m)) := by
    rw [filled, h.length_inflight]
  have hwindow : j.windowPackets msg rows v = j.rowPackets msg rows (j.window - (s - m)) v := by
    rw [windowPackets, h.length_inflight]
  refine ⟨s', hle, by omega, ?_, hfilled ▸ haligned, hwindow.trans hpackets⟩
  have hahead : j.ahead rows m = min (batchCount j.batch rows.length) (m + min 2 j.window) := rfl
  refine hmax _ (by omega) ?_ ?_
  · intro i hi
    exact (lt_batchCount hb).mp (by omega)
  · have hmono : itemsUpTo j.batch rows.length (j.ahead rows m) ≤
        itemsUpTo j.batch rows.length (m + 2) := itemsUpTo_mono _ _ (by omega)
    omega

/-! ## Acknowledgements -/

/-- The ACK of the first `t` batches: it has their rows, and it grants what remains. -/
structure Acks (j : JoinCall) (rows : List InputTuple) (t : Nat) (ack : StatusPayload) : Prop where
  rows_eq : ack.rowsProcessed.toNat = itemsUpTo j.batch rows.length t
  credit_eq : ack.credit.toNat =
    min rxCreditTuples (rows.length - itemsUpTo j.batch rows.length t)

/-- The batches that the ACK covers are retired. -/
theorem applyCumulativeAck_aligned (h : Aligned j.batch rows.length m s v) (hmt : m < t)
    (hts : t ≤ s) {rowsProcessed : UInt32}
    (hrows : rowsProcessed.toNat = itemsUpTo j.batch rows.length t) :
    ∃ v', applyCumulativeAck v rowsProcessed = (t - m, v') ∧ v'.credit = v.credit ∧
      Aligned j.batch rows.length t s v' := by
  have hb : 0 < j.batch := j.client.batch_pos
  have hless := itemsUpTo_lt hb (h.lt m (by omega)) hmt
  have hretire := retire_aligned hb h.lt hmt.le hts
  rw [applyCumulativeAck, hrows, if_neg (by rw [h.acked]; omega), h.acked, h.inflight, hretire]
  exact ⟨_, rfl, rfl, hts, h.lt, h.sent, rfl, rfl⟩

/-- An ACK always pays for two batches. -/
theorem Acks.pays {ack : StatusPayload} (hack : j.Acks rows t ack) (hts : t ≤ s) :
    itemsUpTo j.batch rows.length (t + 2) ≤
      itemsUpTo j.batch rows.length s + ack.credit.toNat := by
  have hle : j.batch ≤ rxBufTuples := j.client.batch_le
  have hmono := itemsUpTo_mono j.batch rows.length hts
  have hbuf : rxBufTuples = 256 := rfl
  have hgrant : rxCreditTuples = 512 := rfl
  have hfirst := itemsUpTo_succ j.batch rows.length t
  have hsecond := itemsUpTo_succ j.batch rows.length (t + 1)
  have hsize : ∀ i, batchSize j.batch rows.length i ≤ j.batch := fun i => min_le_left _ _
  have h₀ := hsize t
  have h₁ := hsize (t + 1)
  have hall : itemsUpTo j.batch rows.length (t + 1 + 1) ≤ rows.length := min_le_right _ _
  rw [hack.credit_eq]
  show itemsUpTo j.batch rows.length (t + 1 + 1) ≤ _
  omega

/-! ## Build phase -/

/-- Batches are under way: the client waits for the next ACK. -/
theorem enterBuild_aligned (h : Aligned j.batch j.inner.length m s v)
    (hopen : s ≤ m + j.window) (hmore : m < batchCount j.batch j.inner.length)
    (hcredit : itemsUpTo j.batch j.inner.length (m + 2) ≤
      itemsUpTo j.batch j.inner.length s + v.credit) :
    ∃ v' s', j.enterBuild v = (j.chunkPackets .inner j.inner s s', .build v') ∧
      Aligned j.batch j.inner.length m s' v' ∧ s ≤ s' ∧ s' ≤ m + j.window ∧
      j.ahead j.inner m ≤ s' := by
  have hb : 0 < j.batch := j.client.batch_pos
  obtain ⟨s', hle, hwin, htwo, haligned, hpackets⟩ := fill_aligned .inner h hopen hcredit
  have hnext : ¬ (j.filled j.inner v).inflight = [] :=
    haligned.inflight_ne_nil (lt_of_lt_of_le (lt_ahead hmore) htwo)
  refine ⟨j.filled j.inner v, s', ?_, haligned, hle, hwin, htwo⟩
  rw [enterBuild, if_pos (h.busy hb hmore), if_neg hnext, hpackets, CReaction.emit, List.append_nil]

/-- All rows are acknowledged: the build phase is over. -/
theorem enterBuild_over (h : Aligned j.batch j.inner.length (batchCount j.batch j.inner.length)
    (batchCount j.batch j.inner.length) v) : j.enterBuild v = j.enterProbe {} := by
  rw [enterBuild, if_neg (h.idle j.client.batch_pos)]

/-- **An ACK of the build phase.** -/
theorem buildStep_aligned (h : Aligned j.batch j.inner.length m s v)
    (hopen : s ≤ m + j.window) (hmt : m < t) (hts : t ≤ s) {ack : StatusPayload}
    (hack : j.Acks j.inner t ack) :
    if t = batchCount j.batch j.inner.length then j.buildStep v ack = j.enterProbe {}
    else ∃ v' s', j.buildStep v ack = (j.chunkPackets .inner j.inner s s', .build v') ∧
      Aligned j.batch j.inner.length t s' v' ∧ s ≤ s' ∧ s' ≤ t + j.window ∧
      j.ahead j.inner t ≤ s' := by
  have hb : 0 < j.batch := j.client.batch_pos
  obtain ⟨v', hv', hcredit, haligned⟩ :=
    applyCumulativeAck_aligned (h.recredit ack.credit.toNat) hmt hts hack.rows_eq
  have hstep : j.buildStep v ack = j.enterBuild v' := by
    rw [buildStep, hv']
    exact if_neg fun hzero => absurd hzero.1 (by dsimp only; omega)
  have hlast := h.le_batchCount hb
  rw [hstep]
  split
  next hall =>
    obtain rfl : s = t := by omega
    subst hall
    exact enterBuild_over haligned
  next hall =>
    refine enterBuild_aligned haligned (by omega) (by omega) ?_
    rw [hcredit]
    exact hack.pays hts

/-! ## Probe phase -/

theorem enterProbe_aligned (h : Aligned j.batch j.outer.length m s v)
    (hopen : s ≤ m + j.window) (hmore : m < batchCount j.batch j.outer.length)
    (hcredit : itemsUpTo j.batch j.outer.length (m + 2) ≤
      itemsUpTo j.batch j.outer.length s + v.credit) (results : List ResultPair)
    (last : StatusPayload) :
    ∃ v' s', j.enterProbe ⟨v, results, last, false⟩ =
        (j.chunkPackets .outer j.outer s s', .probe v' results) ∧
      Aligned j.batch j.outer.length m s' v' ∧ s ≤ s' ∧ s' ≤ m + j.window ∧
      j.ahead j.outer m ≤ s' := by
  have hb : 0 < j.batch := j.client.batch_pos
  obtain ⟨s', hle, hwin, htwo, haligned, hpackets⟩ := fill_aligned .outer h hopen hcredit
  have hnext : ¬ (j.filled j.outer v).inflight = [] :=
    haligned.inflight_ne_nil (lt_of_lt_of_le (lt_ahead hmore) htwo)
  refine ⟨j.filled j.outer v, s', ?_, haligned, hle, hwin, htwo⟩
  rw [enterProbe, if_pos ⟨h.busy hb hmore, rfl⟩, if_neg hnext, hpackets, CReaction.emit, List.append_nil]

/-- All rows are acknowledged: the probe loop is over. -/
theorem enterProbe_over (h : Aligned j.batch j.outer.length (batchCount j.batch j.outer.length)
    (batchCount j.batch j.outer.length) v) (results : List ResultPair) (last : StatusPayload) :
    j.enterProbe ⟨v, results, last, false⟩ = j.probeEndStep results last := by
  rw [enterProbe, if_neg fun hmore => h.idle j.client.batch_pos hmore.1]

/-- **An ACK of the probe phase.** -/
theorem probeStep_aligned (h : Aligned j.batch j.outer.length m s v)
    (hopen : s ≤ m + j.window) (hmt : m < t) (hts : t ≤ s) {ack : StatusPayload}
    (hack : j.Acks j.outer t ack) (hphase : ack.phase ≠ Phase.done.code)
    (results : List ResultPair) :
    if t = batchCount j.batch j.outer.length then
      j.probeStep v results ack = j.probeEndStep results ack
    else ∃ v' s', j.probeStep v results ack =
        (j.chunkPackets .outer j.outer s s', .probe v' results) ∧
      Aligned j.batch j.outer.length t s' v' ∧ s ≤ s' ∧ s' ≤ t + j.window ∧
      j.ahead j.outer t ≤ s' := by
  have hb : 0 < j.batch := j.client.batch_pos
  obtain ⟨v', hv', hcredit, haligned⟩ :=
    applyCumulativeAck_aligned (h.recredit ack.credit.toNat) hmt hts hack.rows_eq
  have hstep : j.probeStep v results ack = j.enterProbe ⟨v', results, ack, false⟩ := by
    rw [probeStep, hv', if_neg hphase]
    exact if_neg fun hzero => absurd hzero.1 (by dsimp only; omega)
  have hlast := h.le_batchCount hb
  rw [hstep]
  split
  next hall =>
    obtain rfl : s = t := by omega
    subst hall
    exact enterProbe_over haligned results ack
  next hall =>
    refine enterProbe_aligned haligned (by omega) (by omega) ?_ results ack
    rw [hcredit]
    exact hack.pays hts

/-! ## The first windows -/

theorem aligned_start (b n credit : Nat) : Aligned b n 0 0 { credit } :=
  ⟨le_rfl, by simp, by simp [itemsUpTo], by simp [itemsUpTo], rfl⟩

/-- The window after CONFIGURE is aligned, with or without a batch that went out along with
it. -/
theorem firstWindow_aligned {ack : StatusPayload} (hcredit : ack.credit.toNat = rxCreditTuples) :
    ∃ s, s ≤ 1 ∧ Aligned j.batch j.inner.length 0 s (j.firstWindow ack) ∧
      j.configurePacket = .configure j.configurePayload :: (j.chunkPackets .inner j.inner 0 s).flatten ∧
      itemsUpTo j.batch j.inner.length 2 ≤
        itemsUpTo j.batch j.inner.length s + (j.firstWindow ack).credit := by
  have hle : j.batch ≤ rxBufTuples := j.client.batch_le
  have hpos : 0 < j.batch := j.client.batch_pos
  have hbuf : rxBufTuples = 256 := rfl
  have hgrant : rxCreditTuples = 512 := rfl
  have htwo : itemsUpTo j.batch j.inner.length 2 ≤ 2 * j.batch := min_le_left _ _
  by_cases hfirst : j.firstInnerBatch = 0
  · refine ⟨0, by omega, ?_, ?_, ?_⟩
    · rw [firstWindow, if_pos hfirst]
      exact aligned_start _ _ _
    · rw [configurePacket, if_pos hfirst, chunkPackets_self]
      rfl
    · rw [firstWindow, if_pos hfirst, hcredit]
      dsimp only
      omega
  · have hsize : j.firstInnerBatch = batchSize j.batch j.inner.length 0 ∧ 0 < j.inner.length := by
      unfold firstInnerBatch at hfirst ⊢
      split at hfirst
      next hc =>
        rw [if_pos hc]
        unfold batchSize
        omega
      next => exact absurd rfl hfirst
    have hrow : 0 * j.batch < j.inner.length := by
      rw [Nat.zero_mul]
      exact hsize.2
    have hone : Aligned j.batch j.inner.length 0 1 (j.firstWindow ack) := by
      have hpush := (aligned_start j.batch j.inner.length ack.credit.toNat).push hrow
      rw [firstWindow, if_neg hfirst, hsize.1]
      exact ⟨hpush.le, hpush.lt, by simpa [Window.push] using hpush.sent, hpush.acked, rfl⟩
    have hsucc : itemsUpTo j.batch j.inner.length 1 = itemsUpTo j.batch j.inner.length 0 +
        batchSize j.batch j.inner.length 0 := itemsUpTo_succ _ _ _
    have hzero : itemsUpTo j.batch j.inner.length 0 = 0 := by simp [itemsUpTo]
    refine ⟨1, le_rfl, hone, ?_, ?_⟩
    · have hchunk : j.inner.take (batchSize j.batch j.inner.length 0) = chunk j.inner j.batch 0 := by
        rw [← length_chunk, chunk, Nat.zero_mul, List.drop_zero, List.length_take]
        exact List.take_eq_take_min.symm
      rw [configurePacket, if_neg hfirst, hsize.1, hchunk, chunkPackets_cons _ _ Nat.zero_lt_one,
        chunkPackets_self]
      rfl
    · rw [firstWindow, if_neg hfirst, hcredit, hsize.1]
      dsimp only
      omega

end JoinCall

end FpgaHashJoin
