import FpgaHashJoin.Kernel.AnyBytes

/-!
# Partition storage

Where the distribution phases of Algorithm B write. The phases are instrumented: just before
a tuple is written, an assertion about the loop variables and the tuple is checked, and a
violated assertion is a fault like an access out of bounds. With the trivial assertion this
is the code of `Kernel.Grace` (`buildPartitionsChecked_true`). With `WriteOk` no run on
whatever bytes reaches a fault, so every write of every run, also of one that ends with an
error or is still going on, has its two words in the slot of its partition and on no word of
a tuple that is already stored. When a phase has ended, with or without an error, the slots give
back the tuples that it has taken (`Taken`).
-/

namespace FpgaHashJoin

open Process EquiJoin KState LittleEndian

/-- The configuration that an accepted CONFIGURE sets up. -/
def ConfigurePayload.conf (p : ConfigurePayload) (K outerSlotW : Nat) : Conf :=
  ⟨p.sessionId, KeyType.ofCode p.keyType, p.innerCount.toNat, p.outerCount.toNat, K, outerSlotW⟩

/-- The reads of the DATA frames of one phase. -/
def phaseReads (msg : DataMsg) (w : KeyType) (frames : List (List InputTuple)) : Log :=
  frames.flatMap fun ts => (HostFrame.data msg w ts).reads

/-- The rows of these frames. -/
def phaseRows (w : KeyType) (frames : List (List InputTuple)) : List InputTuple :=
  frames.flatten.map w.wire

theorem tidBytesIn_phaseReads (msg : DataMsg) (w : KeyType) (frames : List (List InputTuple)) :
    tidBytesIn (phaseReads msg w frames) = 6 * frames.flatten.length := by
  induction frames with
  | nil => rfl
  | cons ts frames ih =>
    rw [phaseReads, List.flatMap_cons, tidBytesIn_append, tidBytesIn_data, ← phaseReads, ih,
      List.flatten_cons, List.length_append]
    omega

theorem ne_config_of_mem_tupleReads (w : KeyType) (t : InputTuple) :
    ∀ e ∈ tupleReads w t, e.1 ≠ .config := by
  intro e he
  rcases List.mem_append.mp he with he | he <;> obtain ⟨v, -, rfl⟩ := List.mem_map.mp he <;> nofun

theorem ne_config_of_mem_tuples (w : KeyType) (ts : List InputTuple) :
    ∀ e ∈ ts.flatMap (tupleReads w), e.1 ≠ .config := by
  intro e he
  obtain ⟨t, -, he⟩ := List.mem_flatMap.mp he
  exact ne_config_of_mem_tupleReads w t e he

theorem ne_config_of_mem_frame (type : UInt8) (n : UInt16) (w : KeyType) (ts : List InputTuple) :
    ∀ e ∈ (Site.msgType, some type) :: (tagged .count (bytes16 n) ++ ts.flatMap (tupleReads w)),
      e.1 ≠ .config := by
  intro e he
  rcases List.mem_cons.mp he with rfl | he
  · nofun
  rcases List.mem_append.mp he with he | he
  · obtain ⟨v, -, rfl⟩ := List.mem_map.mp he
    nofun
  · exact ne_config_of_mem_tuples w ts e he

theorem ne_config_of_mem_phaseReads (msg : DataMsg) (w : KeyType)
    (frames : List (List InputTuple)) : ∀ e ∈ phaseReads msg w frames, e.1 ≠ .config := by
  intro e he
  obtain ⟨ts, -, he⟩ := List.mem_flatMap.mp he
  exact ne_config_of_mem_frame _ _ _ _ e he

/-- Nothing that is read before the next CONFIGURE makes the log bad. -/
def Quiet (bad : Log → Prop) (L : Log) : Prop := ∀ M, (∀ e ∈ M, e.1 ≠ .config) → ¬ bad (L ++ M)

theorem Quiet.append {bad : Log → Prop} {L M : Log} (h : Quiet bad L)
    (hM : ∀ e ∈ M, e.1 ≠ .config) : Quiet bad (L ++ M) := by
  intro R hR
  rw [List.append_assoc]
  refine h _ fun e he => ?_
  rcases List.mem_append.mp he with he | he
  · exact hM e he
  · exact hR e he

theorem Quiet.guarded {bad : Log → Prop} {L R : Log} {α : Type} {p : KProc α} (h : Quiet bad L)
    (hR : ∀ e ∈ R, e.1 ≠ .config) : Guarded bad L R p :=
  .of_calm fun M hM _ => h M fun e he => hR e (hM.subset he)

namespace GraceHashEngine

/-- The phase takes no frame after these: they have brought as many rows as it was configured
for, or the loop over the frames has reached its bound. -/
def Side.Over (side : Side) (w : KeyType) (frames : List (List InputTuple)) : Prop :=
  side.total ≤ (phaseRows w frames).length ∨ (UInt32.ofNat side.total + 1).toNat < frames.length

/-- What a phase has read and stored when it ends with this code. After whole frames, the phase
is over or it has refused the type of another frame. A tuple whose partition is full ends the
phase as well; the tuples in front of it are stored, and the rest of its frame is read. -/
def Taken (side : Side) (w : KeyType) (K : Nat) :
    FpgaError → Log → List InputTuple → Prop
  | .none, R, rows => ∃ frames, R = phaseReads side.msg w frames ∧ rows = phaseRows w frames ∧
      side.Over w frames
  | .badState, R, rows => ∃ frames type count, rows = phaseRows w frames ∧
      R = phaseReads side.msg w frames ++ (.msgType, some type) :: tagged .count (bytes16 count) ∧
      type ≠ side.msg.type.code
  | .overflow, R, rows => ∃ frames ts t rest, rows = phaseRows w frames ++ ts.map w.wire ∧
      R = phaseReads side.msg w frames ++ (HostFrame.data side.msg w (ts ++ t :: rest)).reads ∧
      (rows.filter fun r => partitionOf r.key K = partitionOf (w.wire t).key K).length =
        side.maxPerSlot
  | _, _, _ => False

/-! ## Instrumented phases -/

section Checked

variable (check : PartitionVars → InputTuple → Prop) [∀ v t, Decidable (check v t)]

/-- `storeTuple` with the assertion before the write. -/
def storeTupleChecked (side : Side) (keytype : UInt8) (K count : Nat) (v : PartitionVars)
    (i : Nat) : KProc PartitionVars :=
  if v.err ≠ .none then pure v
  else do
    let t ← rxTuple keytype
    let p := partitionOf t.key K
    Proc.require (p < graceMaxK)
    if side.maxPerSlot ≤ v.counts p then do
      Proc.forRange (count - (i + 1)) (fun _ _ => rxDiscardTuple keytype) ()
      Proc.put (.error FpgaError.overflow.code)
      return { v with err := .overflow }
    else do
      Proc.require (check v t)
      let idx := side.base + p * side.slotWords + v.counts p * graceWordsPerTuple
      Proc.require (idx + 1 < graceDdr2TotalWords)
      return { v with
        ddr2 := Function.update (Function.update v.ddr2 idx t.key) (idx + 1) (packTid t.tid)
        counts := Function.update v.counts p (v.counts p + 1)
        received := v.received + 1 }

def partitionFrameChecked (side : Side) (keytype : UInt8) (K : Nat) (sessionId : UInt8)
    (v : PartitionVars) : KProc (PartitionVars ⊕ PartitionVars) := do
  let msgType ← rxByte .msgType
  let count ← rxU16 .count
  if msgType = MsgType.reset.code then do
    Proc.put (.ack { phase := Phase.idle.code, sessionId })
    return .inr { v with err := .badState }
  else if msgType ≠ side.msg.type.code then do
    Proc.put (.error FpgaError.badState.code)
    return .inr { v with err := .badState }
  else do
    let v ← Proc.forRange count.toNat (storeTupleChecked check side keytype K count.toNat) v
    partitionAck side sessionId v

def partitionBodyChecked (side : Side) (keytype : UInt8) (K : Nat) (sessionId : UInt8)
    (v : PartitionVars) : KProc (PartitionVars ⊕ PartitionVars) :=
  if ¬ v.frame ≤ (UInt32.ofNat side.total + 1).toNat then pure (.inr v)
  else if side.total ≤ v.received then pure (.inr v)
  else partitionFrameChecked check side keytype K sessionId v

/-- `buildPartitions` with the assertion before every write. -/
def buildPartitionsChecked (side : Side) (keytype : UInt8) (K : Nat) (sessionId : UInt8)
    (ddr2 : Nat → Int64) (counts : Nat → Nat) : KProc PartitionVars :=
  .iter (partitionBodyChecked check side keytype K sessionId) ⟨ddr2, counts, 0, 0, .none⟩

end Checked

/-- Without an assertion this is the code of the engine. -/
theorem buildPartitionsChecked_true (side : Side) (keytype : UInt8) (K : Nat)
    (sessionId : UInt8) (ddr2 : Nat → Int64) (counts : Nat → Nat) :
    buildPartitionsChecked (fun _ _ => True) side keytype K sessionId ddr2 counts =
      buildPartitions side keytype K sessionId ddr2 counts := by
  have htrue : (Proc.require True : KProc Unit) = pure () := if_pos trivial
  have hstore : storeTupleChecked (fun _ _ => True) side keytype K =
      storeTuple side keytype K := by
    funext count v i
    unfold storeTupleChecked storeTuple
    simp only [htrue, pure_bind]
  have hbody : partitionBodyChecked (fun _ _ => True) side keytype K sessionId =
      partitionBody side keytype K sessionId := by
    funext v
    unfold partitionBodyChecked partitionBody partitionFrameChecked partitionFrame
    rw [hstore]
  rw [buildPartitionsChecked, buildPartitions, hbody]

/-! ## Every run of a phase -/

/-- What a distribution phase has stored are the rows of the frames read since `L`. -/
def PhaseInv (L : Log) (side : Side) (c : Conf) (ddr2 : Nat → Int64) (M : Log)
    (v : PartitionVars) : Prop :=
  ∃ frames, M = L ++ phaseReads side.msg c.keyType frames ∧
    PartRep v side c ddr2 frames.length (phaseRows c.keyType frames)

/-- What a distribution phase leaves behind. -/
structure PhaseEnd (L : Log) (side : Side) (c : Conf) (ddr2 : Nat → Int64) (M R : Log)
    (rows : List InputTuple) (v : PartitionVars) : Prop where
  log : M = L ++ R
  taken : Taken side c.keyType c.K v.err R rows
  stored : Stored side c v.ddr2 v.counts rows
  below : ∀ a, a < side.base → v.ddr2 a = ddr2 a

section Runs

variable {side : Side} {c : Conf} {keytype : UInt8} {v : PartitionVars} {ddr2 : Nat → Int64}
  {rows : List InputTuple} {L M : Log} {bad : Log → Prop} {ok : Log → TxFrame → Prop}

/-- Discarded tuples are read like others. -/
theorem discardTuples_always (hq : Quiet bad L) (n : Nat) :
    Always bad ok L (Proc.forRange n (fun _ _ => rxDiscardTuple keytype) ())
      fun M _ => ∃ ts : List InputTuple, ts.length = n ∧
        M = L ++ ts.flatMap (tupleReads (KeyType.ofCode keytype)) := by
  refine Always.forRange (fun i M _ => ∃ ts : List InputTuple, ts.length = i ∧
    M = L ++ ts.flatMap (tupleReads (KeyType.ofCode keytype))) ⟨[], rfl, by simp⟩ ?_
  rintro i - M - ⟨ts, rfl, rfl⟩
  have hq' := hq.append (ne_config_of_mem_tuples (KeyType.ofCode keytype) ts)
  rw [← bind_pure (rxDiscardTuple keytype)]
  refine rxDiscardTuple_then (fun t => hq'.guarded (ne_config_of_mem_tupleReads _ t)) fun t =>
    .pure ⟨ts ++ [t], by simp, by simp⟩

variable {check : PartitionVars → InputTuple → Prop} [∀ v t, Decidable (check v t)]

/-- The assertion holds whenever the rows received so far are stored and the partition of the
next one has room. -/
def Assured (check : PartitionVars → InputTuple → Prop) (side : Side) (c : Conf)
    (ddr2 : Nat → Int64) : Prop :=
  ∀ v frame rows t, PartRep v side c ddr2 frame rows →
    v.counts (partitionOf t.key c.K) < side.maxPerSlot → check v t

/-- The tuple loop has met a full partition: `ts` are stored, `t` is refused, and the rest of
the frame has been read. -/
def Refused (side : Side) (c : Conf) (ddr2 : Nat → Int64) (frame count : Nat)
    (rows : List InputTuple) (L M : Log) (w : PartitionVars) : Prop :=
  ∃ ts t rest v, (ts ++ t :: rest).length = count ∧
    M = L ++ (ts ++ t :: rest).flatMap (tupleReads c.keyType) ∧
    PartRep v side c ddr2 frame (rows ++ ts.map c.keyType.wire) ∧
    side.maxPerSlot ≤ v.counts (partitionOf (c.keyType.wire t).key c.K) ∧
    w = { v with err := .overflow }

variable (hd : Distributes side c keytype) (hcheck : Assured check side c ddr2)
  (hack : ∀ M s, ok M (.ack s)) (herror : ∀ M e, ok M (.error e))

include hd hcheck herror in
theorem storeTuple_always {frame count i : Nat} (hq : Quiet bad L)
    (hv : PartRep v side c ddr2 frame rows) :
    Always bad ok L (storeTupleChecked check side keytype c.K count v i) fun M w =>
      (∃ t, M = L ++ tupleReads c.keyType t ∧
        PartRep w side c ddr2 frame (rows ++ [c.keyType.wire t])) ∨
      Refused side c ddr2 frame (count - (i + 1) + 1) rows L M w := by
  have hmem := hd.valid.memory
  have hK := hd.K_le
  rw [storeTupleChecked, if_neg (not_not.mpr hv.noError)]
  refine rxTuple_then (fun t => hq.guarded (ne_config_of_mem_tupleReads _ t)) fun t => ?_
  rw [hd.keyType]
  have hp := partitionOf_lt (c.keyType.wire t).key hd.K_pos
  refine require_then (fun hover => absurd (hp.trans_le hK) hover) fun _ => ?_
  split
  next hfull =>
    have hq' := hq.append (ne_config_of_mem_tupleReads c.keyType t)
    refine Always.bind (discardTuples_always hq' _) ?_
    rintro M _ ⟨rest, hrest, rfl⟩
    rw [hd.keyType]
    refine put_then (herror _ _) (.pure (.inr ⟨[], t, rest, v, ?_, ?_, ?_, hfull, rfl⟩))
    · simp [hrest]
    · simp
    · simpa using hv
  next hroom =>
    have haddr := Side.addr_lt hd.valid hp (not_le.mp hroom)
    unfold Side.addr at haddr
    refine require_then (fun hover => absurd (hcheck _ _ _ _ hv (not_le.mp hroom)) hover)
      fun _ => ?_
    refine require_then (fun hover => absurd (by omega) hover) fun _ => .pure (.inl ⟨t, rfl, ?_⟩)
    exact hv.store hd.valid _ (not_le.mp hroom)

include hd hcheck herror in
theorem storeTuples_always {frame : Nat} (count : Nat) (hq : Quiet bad L)
    (hv : PartRep v side c ddr2 frame rows) :
    Always bad ok L (Proc.forRange count (storeTupleChecked check side keytype c.K count) v)
      fun M w => (∃ ts : List InputTuple, ts.length = count ∧
        M = L ++ ts.flatMap (tupleReads c.keyType) ∧
        PartRep w side c ddr2 frame (rows ++ ts.map c.keyType.wire)) ∨
      Refused side c ddr2 frame count rows L M w := by
  refine Always.forRange (fun i M w => (∃ ts : List InputTuple, ts.length = i ∧
      M = L ++ ts.flatMap (tupleReads c.keyType) ∧
      PartRep w side c ddr2 frame (rows ++ ts.map c.keyType.wire)) ∨
    Refused side c ddr2 frame count rows L M w)
    (.inl ⟨[], rfl, by simp, by simpa using hv⟩) ?_
  rintro i hi M w (⟨ts, rfl, rfl, hw⟩ | hrefused)
  · have hq' := hq.append (ne_config_of_mem_tuples c.keyType ts)
    refine (storeTuple_always hd hcheck herror hq' hw).mono ?_
    rintro M w' (⟨t, rfl, hw'⟩ | ⟨ts', t, rest, u, hlen, rfl, hu, hfull, rfl⟩)
    · exact .inl ⟨ts ++ [t], by simp, by simp, by simpa using hw'⟩
    · refine .inr ⟨ts ++ ts', t, rest, u, ?_, by simp, by simpa using hu, hfull, rfl⟩
      rw [List.append_assoc, List.length_append, hlen]
      omega
  · -- the remaining iterations do nothing
    obtain ⟨ts, t, rest, u, hlen, hM, hu, hfull, rfl⟩ := hrefused
    rw [storeTupleChecked, if_pos (by simp)]
    exact .pure (.inr ⟨ts, t, rest, u, hlen, hM, hu, hfull, rfl⟩)

theorem phaseReads_snoc (msg : DataMsg) (w : KeyType) (frames : List (List InputTuple))
    (ts : List InputTuple) :
    phaseReads msg w (frames ++ [ts]) = phaseReads msg w frames ++ (HostFrame.data msg w ts).reads := by
  simp [phaseReads]

theorem phaseRows_snoc (w : KeyType) (frames : List (List InputTuple)) (ts : List InputTuple) :
    phaseRows w (frames ++ [ts]) = phaseRows w frames ++ ts.map w.wire := by
  simp [phaseRows]

/-- The reads of a DATA frame with the count that was read. -/
theorem dataReads_eq {msg : DataMsg} {w : KeyType} {ts : List InputTuple} {count : UInt16}
    (h : ts.length = count.toNat) : (HostFrame.data msg w ts).reads =
      (.msgType, some msg.type.code) :: tagged .count (bytes16 count) ++
        ts.flatMap (tupleReads w) := by
  rw [HostFrame.reads, headerReads, h, UInt16.ofNat_toNat]

include hd hcheck hack herror in
theorem partitionFrame_always {sessionId : UInt8} (hq : Quiet bad L)
    (hv : PhaseInv L side c ddr2 M v) :
    Always bad ok M (partitionFrameChecked check side keytype c.K sessionId v) fun M' r =>
      Sum.elim (PhaseInv L side c ddr2 M')
        (fun w => ∃ R rows, PhaseEnd L side c ddr2 M' R rows w) r := by
  obtain ⟨frames, rfl, hv⟩ := hv
  have hq₁ := hq.append (ne_config_of_mem_phaseReads side.msg c.keyType frames)
  unfold partitionFrameChecked
  refine rxByte_then (fun type => hq₁.guarded fun e he => ?_) fun type => ?_
  · rw [List.mem_singleton.mp he]
    nofun
  have hq₂ : Quiet bad (L ++ phaseReads side.msg c.keyType frames ++ [(.msgType, some type)]) :=
    hq₁.append fun e he => by rw [List.mem_singleton.mp he]; nofun
  refine rxU16_then (fun count => hq₂.guarded fun e he => ?_) fun count => ?_
  · obtain ⟨v, -, rfl⟩ := List.mem_map.mp he
    nofun
  have hlog : L ++ phaseReads side.msg c.keyType frames ++ [(.msgType, some type)] ++
      tagged .count (bytes16 count) = L ++ (phaseReads side.msg c.keyType frames ++
        (.msgType, some type) :: tagged .count (bytes16 count)) := by
    simp
  have hend : type ≠ side.msg.type.code → PhaseEnd L side c ddr2
      (L ++ phaseReads side.msg c.keyType frames ++ [(.msgType, some type)] ++
        tagged .count (bytes16 count)) _ _ { v with err := .badState } := fun htype =>
    ⟨hlog, ⟨frames, type, count, rfl, rfl, htype⟩, hv.stored, hv.below⟩
  split
  next hreset =>
    refine put_then (hack _ _) (.pure ⟨_, _, hend ?_⟩)
    rw [hreset]
    cases side.msg <;> decide
  split
  next htype => exact put_then (herror _ _) (.pure ⟨_, _, hend htype⟩)
  next htype =>
    obtain rfl := not_not.mp htype
    have hq₃ := hq₂.append (M := tagged .count (bytes16 count)) fun e he => by
      obtain ⟨v, -, rfl⟩ := List.mem_map.mp he
      nofun
    refine Always.bind (storeTuples_always hd hcheck herror count.toNat hq₃ hv) ?_
    unfold partitionAck
    rintro M w (⟨ts, hlen, rfl, hw⟩ | ⟨ts, t, rest, u, hlen, rfl, hu, hfull, rfl⟩)
    · rw [if_neg (not_not.mpr hw.noError)]
      refine put_then (hack _ _) (.pure ⟨frames ++ [ts], ?_, ?_⟩)
      · rw [phaseReads_snoc, dataReads_eq hlen]
        simp
      · rw [phaseRows_snoc, List.length_append, List.length_singleton]
        exact ⟨hw.noError, congrArg (· + 1) hw.frame_eq, hw.received, hw.stored, hw.below⟩
    · rw [if_pos (by simp)]
      refine .pure ⟨_, _, ?_, ⟨frames, ts, t, rest, rfl, rfl, ?_⟩, hu.stored, hu.below⟩
      · rw [dataReads_eq hlen]
        simp
      · obtain ⟨hcount, hmax, -⟩ := hu.stored _ (partitionOf_lt (c.keyType.wire t).key hd.K_pos)
        exact le_antisymm hmax (hcount ▸ hfull)

include hd hcheck hack herror in
/-- **A distribution phase leaves the rows that it has taken in memory**, and no assertion is
violated on the way. -/
theorem buildPartitionsChecked_always {sessionId : UInt8} (hq : Quiet bad L) :
    Always bad ok L (buildPartitionsChecked check side keytype c.K sessionId ddr2 fun _ => 0)
      fun M w => ∃ R rows, PhaseEnd L side c ddr2 M R rows w := by
  refine Always.iter (PhaseInv L side c ddr2) ?_ fun M w hw => ?_
  · exact ⟨[], by simp [phaseReads], rfl, rfl, rfl, stored_nil _ _ _, fun _ _ => rfl⟩
  · have hend : ∀ frames, M = L ++ phaseReads side.msg c.keyType frames →
        PartRep w side c ddr2 frames.length (phaseRows c.keyType frames) →
        side.Over c.keyType frames → ∃ R rows, PhaseEnd L side c ddr2 M R rows w := by
      intro frames hM hrep hover
      refine ⟨_, _, hM, ?_, hrep.stored, hrep.below⟩
      rw [hrep.noError]
      exact ⟨frames, rfl, rfl, hover⟩
    obtain ⟨frames, hM, hrep⟩ := id hw
    unfold partitionBodyChecked
    split
    next hframe => exact .pure (hend frames hM hrep (.inr (by rw [hrep.frame_eq] at hframe; omega)))
    split
    next hdone => exact .pure (hend frames hM hrep (.inl (by rwa [← hrep.received])))
    · exact partitionFrame_always hd hcheck hack herror hq hw

end Runs

section Phases

variable {side : Side} {c : Conf} {keytype sessionId : UInt8} {ddr2 : Nat → Int64}

/-- The same for the code without assertions. -/
theorem buildPartitions_always {L : Log} {bad : Log → Prop} {ok : Log → TxFrame → Prop}
    (hd : Distributes side c keytype) (hack : ∀ M s, ok M (.ack s))
    (herror : ∀ M e, ok M (.error e)) (hq : Quiet bad L) :
    Always bad ok L (buildPartitions side keytype c.K sessionId ddr2 fun _ => 0)
      fun M w => ∃ R rows, PhaseEnd L side c ddr2 M R rows w := by
  rw [← buildPartitionsChecked_true]
  exact buildPartitionsChecked_always hd (fun _ _ _ _ _ _ => trivial) hack herror hq

/-- A phase that has ended has stored the rows that it has taken. -/
theorem buildPartitions_stores (hd : Distributes side c keytype)
    {ins : Log} {outs : List TxFrame} {v : PartitionVars}
    (hrun : Runs (buildPartitions side keytype c.K sessionId ddr2 fun _ => 0) ins outs (.ret v)) :
    ∃ rows, Taken side c.keyType c.K v.err ins rows ∧ Stored side c v.ddr2 v.counts rows ∧
      ∀ a, a < side.base → v.ddr2 a = ddr2 a := by
  have hall : Always (fun _ => False) (fun _ _ => True) []
      (buildPartitions side keytype c.K sessionId ddr2 fun _ => 0)
      fun M w => ∃ R rows, PhaseEnd [] side c ddr2 M R rows w :=
    buildPartitions_always hd (fun _ _ => trivial) (fun _ _ => trivial) fun _ _ => id
  obtain ⟨R, rows, hlog, htaken, hstored, hbelow⟩ := (hall id ins outs _ hrun).value v rfl
  obtain rfl : ins = R := hlog
  exact ⟨rows, htaken, hstored, hbelow⟩

/-- No run of an instrumented phase reaches a fault. -/
theorem buildPartitionsChecked_safe {check : PartitionVars → InputTuple → Prop}
    [∀ v t, Decidable (check v t)] (hd : Distributes side c keytype)
    (hcheck : Assured check side c ddr2) {ins : Log} {outs : List TxFrame}
    {q : KProc PartitionVars}
    (hrun : Runs (buildPartitionsChecked check side keytype c.K sessionId ddr2 fun _ => 0)
      ins outs q) : q.view ≠ .fault := by
  have hall : Always (fun _ => False) (fun _ _ => True) []
      (buildPartitionsChecked check side keytype c.K sessionId ddr2 fun _ => 0)
      fun M w => ∃ R rows, PhaseEnd [] side c ddr2 M R rows w :=
    buildPartitionsChecked_always hd hcheck (fun _ _ => trivial) (fun _ _ => trivial) fun _ _ => id
  exact (hall id ins outs q hrun).fault.mp

/-- A phase that is configured for the rows of a single frame. -/
theorem buildPartitions_frame (hd : Distributes side c keytype) (ddr2 : Nat → Int64)
    (ts : List InputTuple) (hlen : ts.length ≤ rxBufTuples) (hpos : 0 < side.total) (htotal : side.total = ts.length)
    (hfit : partsFit c side.maxPerSlot (ts.map c.keyType.wire)) :
    ∃ outs v, Runs (buildPartitions side keytype c.K c.sessionId ddr2 fun _ => 0)
        (HostFrame.data side.msg c.keyType ts).reads outs (.ret v) ∧
      PartRep v side c ddr2 1 (ts.map c.keyType.wire) := by
  have hstart : PartRep ⟨ddr2, fun _ => 0, 0, 0, .none⟩ side c ddr2 0 [] :=
    ⟨rfl, rfl, rfl, stored_nil _ _ _, fun _ _ => rfl⟩
  have hframe := partitionFrame_data hd hstart hlen
  rw [List.nil_append, if_pos hfit] at hframe
  obtain ⟨v, ⟨mid, hread, outs, hsend, -⟩, hv⟩ := hframe
  refine ⟨outs, v, ?_, hv⟩
  have hfirst : Runs (partitionBody side keytype c.K c.sessionId ⟨ddr2, fun _ => 0, 0, 0, .none⟩)
      (HostFrame.data side.msg c.keyType ts).reads outs (.ret (.inl v)) := by
    rw [partitionBody, if_neg (by simp), if_neg (by simpa using hpos.ne')]
    exact hread.trans_nil hsend
  have hlast : Runs (partitionBody side keytype c.K c.sessionId v) [] [] (.ret (.inr v)) := by
    have hdone : side.total ≤ v.received := by
      rw [hv.received, List.length_map, htotal]
    rw [partitionBody, if_pos hdone, ite_self]
    exact .refl _
  unfold buildPartitions Proc.iter
  simpa using hfirst.loop_next (hlast.loop_exit (k := .ret) (.refl _))

end Phases

/-! ## Where the writes go -/

/-- The index of entry `n` of partition `p`, in the 32-bit arithmetic of the source. -/
def Side.index32 (side : Side) (p n : Nat) : UInt32 :=
  UInt32.ofNat side.base + UInt32.ofNat p * UInt32.ofNat side.slotWords +
    UInt32.ofNat n * UInt32.ofNat graceWordsPerTuple

/-- The word belongs to a tuple that this side has stored. -/
def Side.Occupied (side : Side) (K : Nat) (counts : Nat → Nat) (a : Nat) : Prop :=
  ∃ q < K, ∃ i < counts q, a = side.addr q i ∨ a = side.addr q i + 1

instance (side : Side) (K : Nat) (counts : Nat → Nat) (a : Nat) :
    Decidable (side.Occupied K counts a) :=
  inferInstanceAs (Decidable (∃ q < K, ∃ i < counts q, _))

/-- The write of a tuple: the 32-bit index is the exact one, both words lie in the slot of the
partition and in the memory, and neither holds a part of a tuple stored before, in this phase
or in an earlier one (`held`). -/
def WriteOk (held : Nat → Prop) (side : Side) (K : Nat) (v : PartitionVars) (t : InputTuple) :
    Prop :=
  let p := partitionOf t.key K
  let idx := (side.index32 p (v.counts p)).toNat
  idx = side.addr p (v.counts p) ∧
    (side.base + p * side.slotWords ≤ idx ∧ idx + 1 < side.base + (p + 1) * side.slotWords) ∧
    idx + 1 < graceDdr2TotalWords ∧
    (¬ side.Occupied K v.counts idx ∧ ¬ side.Occupied K v.counts (idx + 1)) ∧
    ¬ held idx ∧ ¬ held (idx + 1)

instance (held : Nat → Prop) [DecidablePred held] (side : Side) (K : Nat) (v : PartitionVars)
    (t : InputTuple) : Decidable (WriteOk held side K v t) :=
  inferInstanceAs (Decidable (_ ∧ (_ ∧ _) ∧ _ ∧ (_ ∧ _) ∧ _ ∧ _))

/-- The first `n` entries of a slot, unpacked. -/
def unpackSlot (side : Side) (ddr2 : Nat → Int64) (p n : Nat) : List InputTuple :=
  (List.range n).map fun i =>
    let idx := (side.index32 p i).toNat
    (ddr2 idx, unpackTid (ddr2 (idx + 1)))

section Writes

variable {side : Side} {c : Conf} {keytype sessionId : UInt8} {ddr2 : Nat → Int64}

theorem Side.index32_eq {K p n : Nat} (h : side.Valid K) (hp : p < K)
    (hn : n < side.maxPerSlot) : (side.index32 p n).toNat = side.addr p n := by
  have hlt := Side.addr_lt h hp hn
  have hmemory := h.memory
  rw [graceDdr2TotalWords_eq] at hmemory
  have hexact : side.index32 p n = UInt32.ofNat (side.addr p n) := by
    rw [Side.index32, Side.addr, UInt32.ofNat_add, UInt32.ofNat_add, UInt32.ofNat_mul,
      UInt32.ofNat_mul]
  rw [hexact, UInt32.toNat_ofNat_of_lt' (show _ < 4294967296 by omega)]

/-- An entry that is not stored yet shares no word with those that are. -/
theorem Side.not_occupied {K p : Nat} {counts : Nat → Nat} (h : side.Valid K)
    (hp : counts p < side.maxPerSlot) (hmax : ∀ q < K, counts q ≤ side.maxPerSlot) :
    ¬ side.Occupied K counts (side.addr p (counts p)) ∧
      ¬ side.Occupied K counts (side.addr p (counts p) + 1) := by
  have hapart : ∀ q < K, ∀ i < counts q,
      side.addr p (counts p) ≠ side.addr q i ∧ side.addr p (counts p) ≠ side.addr q i + 1 ∧
        side.addr p (counts p) + 1 ≠ side.addr q i := by
    intro q hq i hi
    refine Side.addr_apart h hp (hi.trans_le (hmax q hq)) ?_
    by_cases hpq : p = q
    · subst hpq
      exact Or.inr (by omega)
    · exact Or.inl hpq
  constructor
  · rintro ⟨q, hq, i, hi, heq | heq⟩
    · exact (hapart q hq i hi).1 heq
    · exact (hapart q hq i hi).2.1 heq
  · rintro ⟨q, hq, i, hi, heq | heq⟩
    · exact (hapart q hq i hi).2.2 heq
    · exact (hapart q hq i hi).1 (by omega)

/-- **Every write is in order.** -/
theorem writeOk_assured {held : Nat → Prop} (hd : Distributes side c keytype)
    (hheld : ∀ a, held a → a < side.base) : Assured (WriteOk held side c.K) side c ddr2 := by
  intro v frame rows t hv hroom
  have hp := partitionOf_lt t.key hd.K_pos
  have hslot := hd.valid.slot
  have hmemory := hd.valid.memory
  have hlt := Side.addr_lt hd.valid hp hroom
  have hmax : ∀ q < c.K, v.counts q ≤ side.maxPerSlot := by
    intro q hq
    obtain ⟨hcount, hle, -⟩ := hv.stored q hq
    omega
  have hlow : side.base + partitionOf t.key c.K * side.slotWords ≤
      side.addr (partitionOf t.key c.K) (v.counts (partitionOf t.key c.K)) := by
    rw [Side.addr]
    omega
  have hhigh : side.addr (partitionOf t.key c.K) (v.counts (partitionOf t.key c.K)) + 1 <
      side.base + (partitionOf t.key c.K + 1) * side.slotWords := by
    rw [graceWordsPerTuple_eq] at hslot
    rw [Side.addr, Nat.add_mul, Nat.one_mul, graceWordsPerTuple_eq]
    omega
  unfold WriteOk
  dsimp only
  rw [Side.index32_eq hd.valid hp hroom]
  refine ⟨rfl, ⟨hlow, hhigh⟩, by omega, Side.not_occupied hd.valid hroom hmax, ?_, ?_⟩
  · intro h
    have := hheld _ h
    omega
  · intro h
    have := hheld _ h
    omega

/-- The entries of a slot give back the rows of the partition, in the order of arrival. -/
theorem Stored.unpackSlot_eq {counts : Nat → Nat} {rows : List InputTuple}
    (h : Stored side c ddr2 counts rows) (hvalid : side.Valid c.K) {p : Nat} (hp : p < c.K) :
    unpackSlot side ddr2 p (counts p) = partRows c p rows := by
  obtain ⟨hcount, hmax, hcells⟩ := h p hp
  apply List.ext_getElem?
  intro i
  rw [unpackSlot, List.getElem?_map]
  by_cases hi : i < counts p
  · obtain ⟨r, hr⟩ : ∃ r, (partRows c p rows)[i]? = some r :=
      ⟨_, List.getElem?_eq_getElem (by omega)⟩
    obtain ⟨hkey, htid⟩ := hcells i r hr
    rw [List.getElem?_range hi, Option.map_some, hr]
    dsimp only
    rw [Side.index32_eq hvalid hp (by omega), hkey, htid, unpackTid_packTid]
  · rw [List.getElem?_eq_none (by simpa using hi), List.getElem?_eq_none (by omega)]
    rfl

end Writes

/-- **Partition storage.** For every accepted CONFIGURE of Algorithm B and whatever bytes
follow it: every write of the inner phase is in order, and so is every write of the outer
phase, which moreover touches no word of an inner tuple; the instrumented phases are the code
with an assertion before each write. Whenever a phase has ended, with an error or without one,
its slots hold what it has taken: the entries of each partition, unpacked, are the rows of its
tuples in the order of arrival. -/
theorem partition_storage {p : ConfigurePayload} {K outerSlotW : Nat}
    (halg : p.algorithm = AlgorithmType.algorithmB.code)
    (haccepted : checkConfigure p.algorithm p.innerCount.toNat p.outerCount.toNat =
      .ok (K, outerSlotW)) (ddr2 : Nat → Int64) :
    let inner := innerSide p.innerCount.toNat
    let outer := outerSide p.outerCount.toNat outerSlotW
    let w := KeyType.ofCode p.keyType
    let part := fun q (t : InputTuple) => decide (partitionOf t.key K = q)
    buildPartitionsChecked (fun _ _ => True) inner p.keyType K p.sessionId ddr2 (fun _ => 0) =
      buildInnerPartitions p.innerCount.toNat p.keyType K p.sessionId ddr2 ∧
    (∀ ins outs q, Runs (buildPartitionsChecked (WriteOk (fun _ => False) inner K) inner
        p.keyType K p.sessionId ddr2 fun _ => 0) ins outs q → q.view ≠ .fault) ∧
    ∀ ins outs v, Runs (buildInnerPartitions p.innerCount.toNat p.keyType K p.sessionId ddr2)
        ins outs (.ret v) →
      ∃ rows, Taken inner w K v.err ins rows ∧
        (∀ q < K, unpackSlot inner v.ddr2 q (v.counts q) = rows.filter (part q)) ∧
        buildPartitionsChecked (fun _ _ => True) outer p.keyType K p.sessionId v.ddr2
            (fun _ => 0) =
          buildOuterPartitions p.outerCount.toNat outerSlotW p.keyType K p.sessionId v.ddr2
            (fun _ => 0) ∧
        (∀ ins' outs' q, Runs (buildPartitionsChecked
            (WriteOk (inner.Occupied K v.counts) outer K) outer p.keyType K p.sessionId v.ddr2
            fun _ => 0) ins' outs' q → q.view ≠ .fault) ∧
        ∀ ins' outs' v', Runs (buildOuterPartitions p.outerCount.toNat outerSlotW p.keyType K
            p.sessionId v.ddr2 fun _ => 0) ins' outs' (.ret v') →
          ∃ rows', Taken outer w K v'.err ins' rows' ∧
            ∀ q < K, unpackSlot inner v'.ddr2 q (v.counts q) = rows.filter (part q) ∧
              unpackSlot outer v'.ddr2 q (v'.counts q) = rows'.filter (part q) := by
  intro inner outer w part
  rw [halg] at haccepted
  obtain ⟨hKpos, hKle, hmemory⟩ := checkConfigure_grace haccepted
  let c := p.conf K outerSlotW
  have hdi : Distributes inner c p.keyType := ⟨innerSide_valid _ hKle, rfl, hKpos, hKle⟩
  have hdo : Distributes outer c p.keyType := ⟨outerSide_valid _ hmemory, rfl, hKpos, hKle⟩
  refine ⟨buildPartitionsChecked_true .., fun ins outs q hrun => ?_, fun ins outs v hrun => ?_⟩
  · exact buildPartitionsChecked_safe (c := c) hdi (writeOk_assured hdi (fun _ h => h.elim)) hrun
  obtain ⟨rows, htaken, hstored, -⟩ := buildPartitions_stores (c := c) hdi hrun
  refine ⟨rows, htaken, fun q hq => hstored.unpackSlot_eq hdi.valid hq,
    buildPartitionsChecked_true .., fun ins' outs' q hrun' => ?_, fun ins' outs' v' hrun' => ?_⟩
  · have hbelow : ∀ a, inner.Occupied K v.counts a → a < outer.base := by
      rintro a ⟨q, hq, i, hi, heq⟩
      obtain ⟨hcount, hmax, -⟩ := hstored q hq
      have hlt := Side.addr_lt hdi.valid hq (show i < inner.maxPerSlot by omega)
      have hlt' : inner.addr q i + 1 < inner.base + K * inner.slotWords := hlt
      have harea : inner.base + K * inner.slotWords ≤ outer.base :=
        inner_below_outer _ _ _ hKle
      omega
    exact buildPartitionsChecked_safe (c := c) hdo (writeOk_assured hdo hbelow) hrun'
  obtain ⟨rows', htaken', hstored', hbelow⟩ := buildPartitions_stores (c := c) hdo hrun'
  refine ⟨rows', htaken', fun q hq => ⟨?_, hstored'.unpackSlot_eq hdo.valid hq⟩⟩
  have hkept : Stored inner c v'.ddr2 v.counts rows :=
    hstored.congr hdi.valid fun a ha => hbelow a (ha.trans_le
      (inner_below_outer _ _ _ hKle))
  exact hkept.unpackSlot_eq hdi.valid hq

/-- One inner and one outer row. -/
def oneRowConfigure : ConfigurePayload :=
  ⟨AlgorithmType.algorithmB.code, KeyType.int64.code, 0, 1, 1, 7⟩

theorem oneRowConfigure_accepted : checkConfigure oneRowConfigure.algorithm
    oneRowConfigure.innerCount.toNat oneRowConfigure.outerCount.toNat = .ok (1, 8) := by
  decide +kernel

/-- A row is stored and given back on each side. -/
theorem partition_storage_oneRow :
    ∃ ins outs v ins' outs' v',
      Runs (buildInnerPartitions 1 oneRowConfigure.keyType 1 oneRowConfigure.sessionId fun _ => 0)
        ins outs (.ret v) ∧
      Runs (buildOuterPartitions 1 8 oneRowConfigure.keyType 1 oneRowConfigure.sessionId v.ddr2
        fun _ => 0) ins' outs' (.ret v') ∧
      v.err = .none ∧ v'.err = .none ∧
      unpackSlot (innerSide 1) v'.ddr2 0 (v.counts 0) = [(8, ⟨0, 1⟩)] ∧
      unpackSlot (outerSide 1 8) v'.ddr2 0 (v'.counts 0) = [(8, ⟨0, 2⟩)] := by
  let c : Conf := oneRowConfigure.conf 1 8
  obtain ⟨hKpos, hKle, hmemory⟩ := checkConfigure_grace oneRowConfigure_accepted
  have hdi : Distributes (innerSide 1) c oneRowConfigure.keyType :=
    ⟨innerSide_valid _ hKle, rfl, hKpos, hKle⟩
  have hdo : Distributes (outerSide 1 8) c oneRowConfigure.keyType :=
    ⟨outerSide_valid _ hmemory, rfl, hKpos, hKle⟩
  obtain ⟨outs, v, hrun, hv⟩ := buildPartitions_frame hdi (fun _ => 0) [(8, ⟨0, 1⟩)]
    (by decide) Nat.one_pos rfl (by decide)
  obtain ⟨outs', v', hrun', hv'⟩ := buildPartitions_frame hdo v.ddr2 [(8, ⟨0, 2⟩)]
    (by decide) Nat.one_pos rfl (by decide)
  obtain ⟨-, -, hinner⟩ := partition_storage (p := oneRowConfigure) rfl oneRowConfigure_accepted
    fun _ => 0
  obtain ⟨rows, -, hslot, -, -, houter⟩ := hinner _ _ v hrun
  obtain ⟨rows', -, hslots⟩ := houter _ _ v' hrun'
  obtain ⟨hkept, -⟩ := hslots 0 Nat.one_pos
  have hrows : unpackSlot (innerSide 1) v.ddr2 0 (v.counts 0) = [(8, ⟨0, 1⟩)] :=
    (hv.stored.unpackSlot_eq hdi.valid Nat.one_pos).trans (by decide)
  have hrows' : unpackSlot (outerSide 1 8) v'.ddr2 0 (v'.counts 0) = [(8, ⟨0, 2⟩)] :=
    (hv'.stored.unpackSlot_eq hdo.valid Nat.one_pos).trans (by decide)
  exact ⟨_, outs, v, _, outs', v', hrun, hrun', hv.noError, hv'.noError,
    hkept.trans ((hslot 0 Nat.one_pos).symm.trans hrows), hrows'⟩

end GraceHashEngine

end FpgaHashJoin
