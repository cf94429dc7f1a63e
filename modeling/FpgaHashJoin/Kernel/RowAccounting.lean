import FpgaHashJoin.Kernel.Sessions

/-!
# Rows, totals and credits

How many rows the kernel takes from the DATA frames of a phase, and what its acknowledgements
say about them. The loops of the build phase and both distribution loops take every tuple of a
frame; only the probe loop of Algorithm A stops at the configured total. A frame that carries
more tuples than remain is therefore stored as a whole, and the number of rows to come, which
is computed with 32 bits, wraps around.
-/

namespace FpgaHashJoin

open Process EquiJoin GraceHashEngine KState StoreWhile

/-! ## What the loops of the kernel store -/

section Loops

variable {c : Conf} {frame pending : Nat} {inner rows ts : List InputTuple}

/-- **The insertion loop of a frame stores its rows up to the first that does not fit.** -/
theorem innerBatches_stores {v : BuildVars} (hv : BuildRep v c frame pending inner)
    (hbuf : v.s.Buffered ts) (hlen : ts.length ≤ rxBufTuples) :
    ∃ os v', Sends (Proc.forRange ts.length innerBatch v) os v' ∧
      v'.s.ht.Holds (storeWhile LinearHashTable.fits inner ts) := by
  have hloop := innerBatches_sends hv hbuf hlen le_rfl
  rw [List.take_length] at hloop
  split at hloop
  next hfits =>
    obtain ⟨v', hsend, hv', -⟩ := hloop
    rw [storeWhile_of_fit prefixClosed_fits hfits]
    exact ⟨_, v', hsend, hv'.table⟩
  next =>
    obtain ⟨v', hsend, -, hholds⟩ := hloop
    exact ⟨_, v', hsend, hholds⟩

/-- **A distribution loop stores the rows of a frame up to the first that does not fit.** -/
theorem storeTuples_stores {side : Side} {keytype : UInt8} {v : PartitionVars}
    {ddr2 : Nat → Int64} (hd : Distributes side c keytype)
    (hv : PartRep v side c ddr2 frame rows) (ts : List InputTuple) :
    ∃ os v', Takes (Proc.forRange ts.length (storeTuple side keytype c.K ts.length) v)
        (ts.flatMap (tupleReads c.keyType)) os v' ∧
      Stored side c v'.ddr2 v'.counts
        (storeWhile (partsFit c side.maxPerSlot) rows (ts.map c.keyType.wire)) := by
  have hloop := storeTuples_runs hd hv ts le_rfl
  rw [List.take_length] at hloop
  split at hloop
  next hfit =>
    obtain ⟨v', hrun, hv'⟩ := hloop
    rw [storeWhile_of_fit (prefixClosed_partsFit _ _) hfit]
    exact ⟨_, v', ⟨_, hrun, Sends.pure v'⟩, hv'.stored⟩
  next =>
    obtain ⟨v', htakes, -, hstored⟩ := hloop
    exact ⟨_, v', htakes, hstored⟩

/-- A build frame, up to its acknowledgement. -/
theorem buildFrame_stores (b : Build) {v : BuildVars} (hv : BuildRep v c frame pending inner)
    (hlen : ts.length ≤ rxBufTuples) :
    ∃ outs v' k, Runs (buildFrame b v) (HostFrame.data .inner c.keyType ts).reads outs
        (buildAck v' >>= k) ∧
      v'.s.ht.Holds (storeWhile LinearHashTable.fits inner (ts.map c.keyType.wire)) := by
  obtain ⟨v₁, hread, hv₁, hbuf⟩ := buildFrame_reads (b := b) hv hlen
  obtain ⟨os, v', ⟨outs, hloop, -⟩, hholds⟩ :=
    innerBatches_stores hv₁ hbuf (by rwa [List.length_map])
  obtain ⟨debug, hdebug, -⟩ : Sends (Proc.when (UInt16.ofNat ts.length ≠ 0)
      (emitDebug b .info .buildKey (v₁.s.rxKeyBuf 0).toUInt64.toUInt32)) [] () :=
    Sends.when_quiet (Sends.emitDebug b _ _ _)
  refine ⟨debug ++ outs, v', fun w => pure (.inl { w with frame := w.frame + 1 }),
    hread.trans_nil ?_, hholds⟩
  rw [List.length_map, ← toNat_frameCount hlen] at hloop
  have hrest := hloop.bind fun w => buildAck w >>= fun w =>
    (pure (.inl { w with frame := w.frame + 1 }) : KProc (BuildVars ⊕ BuildVars))
  exact hdebug.seq_silent hrest

/-- A frame of a distribution phase, up to its acknowledgement. -/
theorem partitionFrame_stores {side : Side} {keytype : UInt8} {v : PartitionVars}
    {ddr2 : Nat → Int64} (hd : Distributes side c keytype)
    (hv : PartRep v side c ddr2 frame rows) (hlen : ts.length ≤ rxBufTuples) :
    ∃ outs v', Runs (partitionFrame side keytype c.K c.sessionId v)
        (HostFrame.data side.msg c.keyType ts).reads outs
        (partitionAck side c.sessionId v') ∧
      Stored side c v'.ddr2 v'.counts
        (storeWhile (partsFit c side.maxPerSlot) rows (ts.map c.keyType.wire)) := by
  obtain ⟨os, v', ⟨mid, hread, outs, hsend, -⟩, hstored⟩ := storeTuples_stores hd hv ts
  have hreset : side.msg.type.code ≠ MsgType.reset.code := by
    cases side.msg <;> decide
  refine ⟨outs, v', ?_, hstored⟩
  rw [HostFrame.reads, headerReads, List.cons_append, ← List.singleton_append]
  refine (Runs.read _ _).seq_reads ((rxU16_runs .count _).seq_reads ?_)
  rw [if_neg hreset, if_neg (not_not.mpr rfl), toNat_frameCount hlen]
  simpa using (hread.trans_nil hsend).bind (partitionAck side c.sessionId)

end Loops

/-! ## Phases -/

namespace KState

/-- The configured number of rows of the phase. -/
def total : KState → Nat
  | .build c _ _ _ => c.innerTotal
  | .graceBuild c _ _ => c.innerTotal
  | .probe c _ _ _ _ _ => c.outerTotal
  | .graceProbe c _ _ _ => c.outerTotal
  | _ => 0

/-- The rows of the phase that have been inserted, stored or looked up. -/
def rows : KState → List InputTuple
  | .build _ _ _ inner => inner
  | .graceBuild _ _ inner => inner
  | .probe _ _ _ _ seen _ => seen
  | .graceProbe _ _ _ outer => outer
  | _ => []

/-- The same after a DATA frame with the rows `ts`. -/
def rowsAfter : KState → DataMsg → List InputTuple → List InputTuple
  | .build _ _ _ inner, .inner, ts => storeWhile LinearHashTable.fits inner ts
  | .graceBuild c _ inner, .inner, ts => storeWhile (partsFit c htMaxRows) inner ts
  | .probe c _ _ _ seen _, .outer, ts => seen ++ ts.take (c.outerTotal - seen.length)
  | .graceProbe c _ _ outer, .outer, ts =>
    storeWhile (partsFit c (c.outerSlotW / graceWordsPerTuple)) outer ts
  | st, _, _ => st.rows

/-- The frame has a tuple beyond the configured total, and this tuple fits. -/
def Surplus : KState → DataMsg → List InputTuple → Prop
  | .build c _ _ inner, .inner, ts => c.innerTotal < inner.length + ts.length ∧
      LinearHashTable.fits ((inner ++ ts).take (c.innerTotal + 1))
  | .graceBuild c _ inner, .inner, ts => c.innerTotal < inner.length + ts.length ∧
      partsFit c htMaxRows ((inner ++ ts).take (c.innerTotal + 1))
  | .graceProbe c _ _ outer, .outer, ts => c.outerTotal < outer.length + ts.length ∧
      partsFit c (c.outerSlotW / graceWordsPerTuple) ((outer ++ ts).take (c.outerTotal + 1))
  | _, _, _ => False

/-- The process is about to acknowledge a frame of a phase that stores rows, and the hash table
or the partitions hold these rows. The probe phase of Algorithm A stores nothing, and a frame
that the phase does not expect is not read. -/
def InMemory : KState → DataMsg → List InputTuple → KProc Session → Prop
  | .build _ _ _ _, .inner, rows, q =>
    ∃ v k, q = buildAck v >>= k ∧ v.s.ht.Holds rows
  | .graceBuild c _ _, .inner, rows, q =>
    ∃ v k, q = partitionAck (innerSide c.innerTotal) c.sessionId v >>= k ∧
      Stored (innerSide c.innerTotal) c v.ddr2 v.counts rows
  | .graceProbe c _ _ _, .outer, rows, q =>
    ∃ v k, q = partitionAck (outerSide c.outerTotal c.outerSlotW) c.sessionId v >>= k ∧
      Stored (outerSide c.outerTotal c.outerSlotW) c v.ddr2 v.counts rows
  | _, _, _, _ => True

/-- The acknowledgements report no more rows than there are, with the credit for those that
remain; and no row beyond the total is taken. -/
structure RowsOk (total : Nat) (os : List KOut) (rows : List InputTuple) : Prop where
  acks : ∀ a, .ack a ∈ os → a.rowsProcessed.toNat ≤ total ∧
    a.credit.toNat = min rxCreditTuples (total - a.rowsProcessed.toNat)
  taken : rows.length ≤ total

/-- In every phase rows are still expected, and the totals are those of 32-bit counters. -/
def Expecting : KState → Prop
  | .build c _ _ inner => inner.length < c.innerTotal ∧ c.innerTotal < 2 ^ 32 ∧ c.outerTotal < 2 ^ 32
  | .graceBuild c _ inner =>
    inner.length < c.innerTotal ∧ c.innerTotal < 2 ^ 32 ∧ c.outerTotal < 2 ^ 32
  | .probe c _ _ _ seen _ => seen.length < c.outerTotal ∧ c.outerTotal < 2 ^ 32
  | .graceProbe c _ _ outer => outer.length < c.outerTotal ∧ c.outerTotal < 2 ^ 32
  | _ => True

section Steps

variable {b : Build} {c : Conf} {frame pending : Nat} {inner seen ts : List InputTuple}
  {buf : List ResultPair}

theorem expecting_endSession (b : Build) : (endSession b).2.Expecting := by
  rw [endSession]
  split <;> trivial

theorem expecting_enterProbe (houter : c.outerTotal < 2 ^ 32) :
    (enterProbe b c frame pending inner seen buf).2.Expecting := by
  unfold enterProbe
  split
  · next h => exact ⟨h.2, houter⟩
  · exact expecting_endSession b

theorem expecting_enterBuild (hinner : c.innerTotal < 2 ^ 32) (houter : c.outerTotal < 2 ^ 32) :
    (enterBuild b c frame pending inner).2.Expecting := by
  unfold enterBuild
  split
  · next h => exact ⟨h.2, hinner, houter⟩
  · exact expecting_enterProbe houter

theorem expecting_enterGraceProbe {outer : List InputTuple} (houter : c.outerTotal < 2 ^ 32) :
    (enterGraceProbe b c frame inner outer).2.Expecting := by
  unfold enterGraceProbe
  split
  · next h => exact ⟨h.2, houter⟩
  · unfold graceFinish
    dsimp only [Reaction.emit]
    split <;> exact expecting_endSession b

theorem expecting_enterGraceBuild (hinner : c.innerTotal < 2 ^ 32) (houter : c.outerTotal < 2 ^ 32) :
    (enterGraceBuild b c frame inner).2.Expecting := by
  unfold enterGraceBuild
  split
  · next h => exact ⟨h.2, hinner, houter⟩
  · exact expecting_enterGraceProbe houter

theorem expecting_reject {f : HostFrame} {e : FpgaError} {r : Reaction}
    (h : reject b f e = some r) : r.2.Expecting := by
  obtain ⟨-, rfl⟩ := reject_eq_some h
  exact expecting_endSession b

theorem expecting_configure (p : ConfigurePayload) : (configureStep b p).2.Expecting := by
  have hinner : p.innerCount.toNat < 2 ^ 32 := p.innerCount.toNat_lt
  have houter : p.outerCount.toNat < 2 ^ 32 := p.outerCount.toNat_lt
  unfold configureStep
  split
  · exact expecting_endSession b
  · dsimp only [Reaction.emit]
    split
    · exact expecting_enterGraceBuild hinner houter
    · exact expecting_enterBuild hinner houter

theorem expecting_buildStep (hinner : c.innerTotal < 2 ^ 32) (houter : c.outerTotal < 2 ^ 32) :
    (buildStep b c frame pending inner ts).2.Expecting := by
  unfold buildStep
  dsimp only
  split_ifs
  · exact expecting_enterBuild hinner houter
  · exact expecting_enterBuild hinner houter
  · exact expecting_endSession b

theorem expecting_probeStep (houter : c.outerTotal < 2 ^ 32) :
    (probeStep b c frame pending inner seen buf ts).2.Expecting := by
  unfold probeStep
  dsimp only [Reaction.emit]
  split_ifs
  · exact expecting_endSession b
  · exact expecting_enterProbe houter
  · exact expecting_enterProbe houter

/-- **Rows are expected in every phase**, since a phase that has them all is left. -/
theorem expecting_step {st : KState} {e : KEvent} {os : List KOut} {st' : KState}
    (hst : st.Expecting) (h : step b st e = some (os, st')) : st'.Expecting := by
  have hsome : ∀ {r : Reaction}, some r = some (os, st') → r.2.Expecting → st'.Expecting := by
    rintro r hr hexp
    rw [Option.some.inj hr] at hexp
    exact hexp
  have hend : ∀ xs, (Reaction.emit xs (endSession b)).2.Expecting := fun _ => expecting_endSession b
  have hdata : ∀ {c w ts} {f : List InputTuple → Reaction},
      (dataRows c w ts).map f = some (os, st') → (∀ rows, (f rows).2.Expecting) → st'.Expecting := by
    intro c w ts f hmap hf
    obtain ⟨rows, -, hrows⟩ := Option.map_eq_some_iff.mp hmap
    have hexp := hf rows
    rw [hrows] at hexp
    exact hexp
  match st, e, hst, h with
  | .idle, .watchdog, _, h => exact hsome h (hend _)
  | .idle, .frame .reset, _, h => exact hsome h (hend _)
  | .idle, .frame (.configure p), _, h => exact hsome h (expecting_configure p)
  | .idle, .frame (.data _ _ _), _, h => exact expecting_reject h
  | .build _ _ _ _, .watchdog, _, h => exact hsome h (hend _)
  | .build _ _ _ _, .frame .reset, _, h => exact hsome h (hend _)
  | .build _ _ _ _, .frame (.configure _), _, h => exact expecting_reject h
  | .build _ _ _ _, .frame (.data .outer _ _), _, h => exact expecting_reject h
  | .build _ _ _ _, .frame (.data .inner _ _), hst, h =>
    exact hdata h fun rows => expecting_buildStep hst.2.1 hst.2.2
  | .probe _ _ _ _ _ _, .watchdog, _, h => exact hsome h (hend _)
  | .probe _ _ _ _ _ _, .frame .reset, _, h => exact hsome h (hend _)
  | .probe _ _ _ _ _ _, .frame (.configure _), _, h => exact expecting_reject h
  | .probe _ _ _ _ _ _, .frame (.data .inner _ _), _, h => exact expecting_reject h
  | .probe _ _ _ _ _ _, .frame (.data .outer _ _), hst, h =>
    exact hdata h fun rows => expecting_probeStep hst.2
  | .graceBuild _ _ _, .frame .reset, _, h => exact hsome h (hend _)
  | .graceBuild _ _ _, .frame (.configure _), _, h => exact expecting_reject h
  | .graceBuild _ _ _, .frame (.data .outer _ _), _, h => exact expecting_reject h
  | .graceBuild _ _ _, .frame (.data .inner _ _), hst, h =>
    refine hdata h fun rows => ?_
    unfold graceBuildStep
    split
    · exact expecting_enterGraceBuild hst.2.1 hst.2.2
    · exact hend _
  | .graceProbe _ _ _ _, .frame .reset, _, h => exact hsome h (hend _)
  | .graceProbe _ _ _ _, .frame (.configure _), _, h => exact expecting_reject h
  | .graceProbe _ _ _ _, .frame (.data .inner _ _), _, h => exact expecting_reject h
  | .graceProbe _ _ _ _, .frame (.data .outer _ _), hst, h =>
    refine hdata h fun rows => ?_
    unfold graceProbeStep
    split
    · exact expecting_enterGraceProbe hst.2
    · exact hend _

/-! ## Acknowledgements -/

/-- Nothing is acknowledged. -/
def NoAck (os : List KOut) : Prop := ∀ a, KOut.ack a ∉ os

theorem noAck_append {os os' : List KOut} (h : NoAck os) (h' : NoAck os') : NoAck (os ++ os') := by
  intro a ha
  rcases List.mem_append.mp ha with ha | ha
  · exact h a ha
  · exact h' a ha

theorem noAck_results (fs : List (List ResultPair)) : NoAck (fs.map .results) := by
  intro a ha
  simp at ha

theorem noAck_enterProbe : NoAck (enterProbe b c frame pending inner seen buf).1 := by
  intro a
  unfold enterProbe
  split
  · simp
  · simp [Reaction.emit, doneStatus, endSession]

theorem noAck_enterBuild : NoAck (enterBuild b c frame pending inner).1 := by
  unfold enterBuild
  split
  · intro a
    simp
  · exact noAck_enterProbe

theorem noAck_joinParts (outer : List InputTuple) (ps : List Nat) :
    NoAck (joinParts c inner outer ps).1 := by
  induction ps with
  | nil =>
    intro a
    simp [joinParts]
  | cons p ps ih =>
    unfold joinParts
    split
    · exact noAck_append (noAck_results _) ih
    · intro a
      simp

theorem noAck_enterGraceProbe {outer : List InputTuple} :
    NoAck (enterGraceProbe b c frame inner outer).1 := by
  unfold enterGraceProbe
  split
  · intro a
    simp
  · unfold graceFinish
    dsimp only [Reaction.emit]
    refine noAck_append (noAck_joinParts _ _) ?_
    intro a
    split
    · simp [doneStatus, endSession]
    · simp [endSession]

theorem noAck_enterGraceBuild : NoAck (enterGraceBuild b c frame inner).1 := by
  unfold enterGraceBuild
  split
  · intro a
    simp
  · exact noAck_enterGraceProbe

theorem toNat_creditFor (n : Nat) : (creditFor n).toNat = min rxCreditTuples n := by
  have hcredit : rxCreditTuples = 512 := rfl
  unfold creditFor
  split
  · next h =>
    rw [UInt16.toNat_ofNat_of_lt' (h.trans (by decide))]
    omega
  · next h =>
    rw [hcredit] at h ⊢
    rw [UInt16.toNat_ofNat_of_lt' (by decide)]
    omega

theorem subU32_eq {total processed : Nat} (h : processed ≤ total) (htotal : total < 2 ^ 32) :
    subU32 total processed = total - processed := by
  rw [subU32, UInt32.toNat_sub_of_le, UInt32.toNat_ofNat_of_lt' htotal,
    UInt32.toNat_ofNat_of_lt' (h.trans_lt htotal)]
  rw [UInt32.le_iff_toNat_le, UInt32.toNat_ofNat_of_lt' htotal,
    UInt32.toNat_ofNat_of_lt' (h.trans_lt htotal)]
  exact h

/-- The acknowledgement of a frame that does not go beyond the total, and what follows it. -/
theorem acksOk_dataAck {phase : Phase} {total processed matched : Nat} (h : processed ≤ total)
    (htotal : total < 2 ^ 32) {os : List KOut} (hos : NoAck os) (a : StatusPayload)
    (ha : .ack a ∈ dataAck c phase total processed matched :: os) :
    a.rowsProcessed.toNat ≤ total ∧
      a.credit.toNat = min rxCreditTuples (total - a.rowsProcessed.toNat) := by
  rcases List.mem_cons.mp ha with ha | ha
  · obtain rfl := KOut.ack.inj ha
    have hrows : (UInt32.ofNat processed).toNat = processed :=
      UInt32.toNat_ofNat_of_lt' (h.trans_lt htotal)
    dsimp only
    rw [hrows, toNat_creditFor, subU32_eq h htotal]
    exact ⟨h, rfl⟩
  · exact absurd ha (hos a)

/-- A loop that takes all tuples of a frame goes beyond the total exactly if there is a surplus. -/
theorem rowsOk_iff_of_store {fit : List InputTuple → Prop} [DecidablePred fit]
    (hfit : PrefixClosed fit) {rows : List InputTuple} {total : Nat} {os : List KOut}
    (hrows : rows.length < total)
    (hacks : (fit (rows ++ ts) → (rows ++ ts).length ≤ total) → ∀ a, .ack a ∈ os →
      a.rowsProcessed.toNat ≤ total ∧
        a.credit.toNat = min rxCreditTuples (total - a.rowsProcessed.toNat)) :
    RowsOk total os (storeWhile fit rows ts) ↔
      ¬ (total < rows.length + ts.length ∧ fit ((rows ++ ts).take (total + 1))) := by
  rw [← lt_length_storeWhile_iff hfit hrows.le]
  constructor
  · intro h
    exact not_lt.mpr h.taken
  · intro h
    refine ⟨hacks fun hall => ?_, not_lt.mp h⟩
    rw [lt_length_storeWhile_iff hfit hrows.le] at h
    exact length_le_of_not_surplus hfit hall h

theorem rowsOk_buildStep (hrows : inner.length < c.innerTotal) (htotal : c.innerTotal < 2 ^ 32) :
    RowsOk c.innerTotal (buildStep b c frame pending inner ts).1
        (storeWhile LinearHashTable.fits inner ts) ↔
      ¬ (c.innerTotal < inner.length + ts.length ∧
        LinearHashTable.fits ((inner ++ ts).take (c.innerTotal + 1))) := by
  refine rowsOk_iff_of_store prefixClosed_fits hrows fun hle a ha => ?_
  unfold buildStep at ha
  dsimp only at ha
  split_ifs at ha with hfits hack
  · exact acksOk_dataAck (hle hfits) htotal noAck_enterBuild a ha
  · exact absurd ha (noAck_enterBuild a)
  · simp [Reaction.emit, endSession] at ha

theorem rowsOk_graceBuildStep (hrows : inner.length < c.innerTotal)
    (htotal : c.innerTotal < 2 ^ 32) :
    RowsOk c.innerTotal (graceBuildStep b c frame inner ts).1
        (storeWhile (partsFit c htMaxRows) inner ts) ↔
      ¬ (c.innerTotal < inner.length + ts.length ∧
        partsFit c htMaxRows ((inner ++ ts).take (c.innerTotal + 1))) := by
  refine rowsOk_iff_of_store (prefixClosed_partsFit _ _) hrows fun hle a ha => ?_
  unfold graceBuildStep at ha
  split_ifs at ha with hfits
  · exact acksOk_dataAck (hle hfits) htotal noAck_enterGraceBuild a ha
  · simp [Reaction.emit, endSession] at ha

theorem rowsOk_graceProbeStep {outer : List InputTuple} (hrows : outer.length < c.outerTotal)
    (htotal : c.outerTotal < 2 ^ 32) :
    RowsOk c.outerTotal (graceProbeStep b c frame inner outer ts).1
        (storeWhile (partsFit c (c.outerSlotW / graceWordsPerTuple)) outer ts) ↔
      ¬ (c.outerTotal < outer.length + ts.length ∧
        partsFit c (c.outerSlotW / graceWordsPerTuple)
          ((outer ++ ts).take (c.outerTotal + 1))) := by
  refine rowsOk_iff_of_store (prefixClosed_partsFit _ _) hrows fun hle a ha => ?_
  unfold graceProbeStep at ha
  split_ifs at ha with hfits
  · exact acksOk_dataAck (hle hfits) htotal noAck_enterGraceProbe a ha
  · simp [Reaction.emit, endSession] at ha

/-- The probe loop of Algorithm A stops at the total. -/
theorem rowsOk_probeStep (hrows : seen.length < c.outerTotal) (htotal : c.outerTotal < 2 ^ 32) :
    RowsOk c.outerTotal (probeStep b c frame pending inner seen buf ts).1
      (seen ++ ts.take (c.outerTotal - seen.length)) := by
  have hle : (seen ++ ts.take (c.outerTotal - seen.length)).length ≤ c.outerTotal := by
    rw [List.length_append, List.length_take]
    omega
  refine ⟨fun a ha => ?_, hle⟩
  unfold probeStep at ha
  dsimp only [Reaction.emit] at ha
  rcases List.mem_append.mp ha with ha | ha
  · exact absurd ha (noAck_results _ a)
  · split_ifs at ha with hdone hack
    · rcases List.mem_append.mp ha with ha | ha
      · simp [doneStatus] at ha
      · simp [endSession] at ha
    · exact acksOk_dataAck hle htotal noAck_enterProbe a ha
    · exact absurd ha (noAck_enterProbe a)

end Steps

/-- A frame that is rejected changes nothing and is not acknowledged. -/
theorem rowsOk_reject {b : Build} {f : HostFrame} {e : FpgaError} {os : List KOut} {st st' : KState}
    (h : reject b f e = some (os, st')) (hrows : st.rows.length ≤ st.total) :
    RowsOk st.total os st.rows := by
  obtain ⟨-, hr⟩ := reject_eq_some h
  refine ⟨fun a ha => ?_, hrows⟩
  have hos : os = [.error e.code] := congrArg Prod.fst hr
  rw [hos] at ha
  simp at ha

theorem rowsOk_step {b : Build} {st st' : KState} {msg : DataMsg} {w : KeyType}
    {ts : List InputTuple} {os : List KOut} (hst : st.Expecting)
    (h : step b st (.frame (.data msg w ts)) = some (os, st')) :
    RowsOk st.total os (st.rowsAfter msg (ts.map w.wire)) ↔ ¬ st.Surplus msg (ts.map w.wire) := by
  have hreject : ∀ {f e}, reject b f e = some (os, st') → st.rows.length ≤ st.total →
      (RowsOk st.total os st.rows ↔ ¬ False) :=
    fun hf hle => iff_of_true (rowsOk_reject hf hle) id
  have hdata : ∀ {c} {f : List InputTuple → Reaction},
      (dataRows c w ts).map f = some (os, st') → os = (f (ts.map w.wire)).1 := by
    intro c f hmap
    obtain ⟨rows, hrows, hf⟩ := Option.map_eq_some_iff.mp hmap
    obtain ⟨rfl, -, rfl⟩ := dataRows_eq_some hrows
    rw [hf]
  match st, msg, hst, h with
  | .idle, _, _, h => exact hreject h le_rfl
  | .build _ _ _ _, .outer, hst, h => exact hreject h hst.1.le
  | .build _ _ _ _, .inner, hst, h =>
    obtain rfl := hdata h
    exact rowsOk_buildStep hst.1 hst.2.1
  | .probe _ _ _ _ _ _, .inner, hst, h => exact hreject h hst.1.le
  | .probe _ _ _ _ _ _, .outer, hst, h =>
    obtain rfl := hdata h
    exact iff_of_true (rowsOk_probeStep hst.1 hst.2) id
  | .graceBuild _ _ _, .outer, hst, h => exact hreject h hst.1.le
  | .graceBuild _ _ _, .inner, hst, h =>
    obtain rfl := hdata h
    exact rowsOk_graceBuildStep hst.1 hst.2.1
  | .graceProbe _ _ _ _, .inner, hst, h => exact hreject h hst.1.le
  | .graceProbe _ _ _ _, .outer, hst, h =>
    obtain rfl := hdata h
    exact rowsOk_graceProbeStep hst.1 hst.2

/-! ## Memory -/

/-- **A phase stores the rows that `rowsAfter` counts.** -/
theorem inMemory_step {b : Build} {st : KState} {p : KProc Session} {msg : DataMsg} {w : KeyType}
    {ts : List InputTuple} {r : Reaction} (hp : Rep b st p)
    (h : step b st (.frame (.data msg w ts)) = some r) :
    ∃ outs q, Runs p (HostFrame.data msg w ts).reads outs q ∧
      st.InMemory msg (st.rowsAfter msg (ts.map w.wire)) q := by
  -- in a phase that stores nothing it is enough that the frame is read
  obtain ⟨mid, hread, -⟩ := reacts hp h
  have hrows : ∀ {c} {f : List InputTuple → Reaction}, (dataRows c w ts).map f = some r →
      w = c.keyType ∧ ts.length ≤ rxBufTuples := by
    intro c f hmap
    obtain ⟨rows, hdata, -⟩ := Option.map_eq_some_iff.mp hmap
    obtain ⟨hw, hlen, -⟩ := dataRows_eq_some hdata
    exact ⟨hw, hlen⟩
  match st, msg, hp, h with
  | .build c frame pending inner, .inner, hp, h =>
    obtain ⟨v, hv, rfl⟩ := hp
    obtain ⟨rfl, hlen⟩ := hrows h
    obtain ⟨outs, v', k, hrun, hholds⟩ := buildFrame_stores b hv hlen
    exact ⟨outs, _, hrun.bind _, v', _, Proc.bind_assoc _ _ _, hholds⟩
  | .graceBuild c frame inner, .inner, hp, h =>
    obtain ⟨s, v, hs, hv, rfl⟩ := hp
    obtain ⟨rfl, hlen⟩ := hrows h
    obtain ⟨outs, v', hrun, hstored⟩ := partitionFrame_stores (hs.distributes hs.innerValid) hv hlen
    exact ⟨outs, _, hrun.bind _, v', _, rfl, hstored⟩
  | .graceProbe c frame inner outer, .outer, hp, h =>
    obtain ⟨s, v, hs, -, hv, rfl⟩ := hp
    obtain ⟨rfl, hlen⟩ := hrows h
    obtain ⟨outs, v', hrun, hstored⟩ := partitionFrame_stores (hs.distributes hs.outerValid) hv hlen
    exact ⟨outs, _, hrun.bind _, v', _, rfl, hstored⟩
  | .idle, _, _, _ => exact ⟨[], mid, hread, trivial⟩
  | .build _ _ _ _, .outer, _, _ => exact ⟨[], mid, hread, trivial⟩
  | .probe _ _ _ _ _ _, _, _, _ => exact ⟨[], mid, hread, trivial⟩
  | .graceBuild _ _ _, .outer, _, _ => exact ⟨[], mid, hread, trivial⟩
  | .graceProbe _ _ _ _, .inner, _, _ => exact ⟨[], mid, hread, trivial⟩

end KState

/-! ## Whole sessions -/

/-- **Every DATA frame of every session.** Whatever the kernel has read before, it answers the
frame with `os'`; before it does, the hash table or the partitions of the phase hold the rows of
the frame up to the first that does not fit. The acknowledgement reports at most the configured
total, with the credit for the rows that remain, and no row beyond the total is taken, exactly
if the frame has no surplus tuple that fits. -/
theorem rows_accounted_iff (b : Build) (s : Session) {es : List KEvent}
    {l : List (Site × Option UInt8)} {os os' : List KOut} {st st' : KState}
    (hpath : (kernelMachine b).Path .idle es l os st) {msg : DataMsg} {w : KeyType}
    {ts : List InputTuple} (hstep : step b st (.frame (.data msg w ts)) = some (os', st')) :
    (∃ outs q, Settles (hashJoinKernel b s)
        (es.flatMap KEvent.vals ++ (HostFrame.data msg w ts).bytes.map some) outs q ∧
      outs.flatMap TxFrame.obs = os ++ os' ∧ Rep b st' q ∧
      ∃ outs₁ q₁ outs₂, Runs (hashJoinKernel b s) (l ++ (HostFrame.data msg w ts).reads) outs₁ q₁ ∧
        Settles q₁ [] outs₂ q ∧ st.InMemory msg (st.rowsAfter msg (ts.map w.wire)) q₁) ∧
    (RowsOk st.total os' (st.rowsAfter msg (ts.map w.wire)) ↔ ¬ st.Surplus msg (ts.map w.wire)) := by
  constructor
  · have hone := Machine.Path.single (M := kernelMachine b) hstep
    obtain ⟨outs, q, hsettles, hobs, hq⟩ := (hpath.trans hone).settles (kernel_enters b s)
    rw [List.flatMap_append, List.flatMap_singleton] at hsettles
    obtain ⟨outs₀, p, hstart, -, hp⟩ := hpath.runs_of_enters (kernel_enters b s)
    obtain ⟨outs₁, q₁, hframe, hmem⟩ := inMemory_step hp hstep
    have hrun := hstart.trans hframe
    have hvals : (l ++ (HostFrame.data msg w ts).reads).map Prod.snd ++ [] =
        es.flatMap KEvent.vals ++ (HostFrame.data msg w ts).bytes.map some := by
      rw [List.append_nil, List.map_append, HostFrame.map_snd_reads]
      exact congrArg (· ++ _) hpath.vals
    have hafter := (Settles.after_iff hrun).mp (hvals ▸ hsettles)
    obtain ⟨outs₂, -, hrest⟩ := hafter
    exact ⟨outs, q, hsettles, hobs, hq, _, q₁, outs₂, hrun, hrest, hmem⟩
  · exact rowsOk_step (hpath.preserves expecting_step trivial) hstep

/-- A session of Algorithm A for one inner row. -/
def oneInnerRow : ConfigurePayload := ⟨AlgorithmType.algorithmA.code, KeyType.int32.code, 0, 1, 0, 9⟩

def oneInnerRowConf : Conf := ⟨9, .int32, 1, 0, 1, 0⟩

/-- The kernel after this CONFIGURE. -/
def oneInnerRowState : KState := .build oneInnerRowConf 0 0 []

/-- A frame with one tuple too many. -/
def surplusRows : List InputTuple := [(1, ⟨0, 1⟩), (2, ⟨0, 2⟩)]

/-- The answer to this frame. -/
def surplusAnswer : List KOut :=
  [dataAck oneInnerRowConf .building 1 2 0, .timing, doneStatus oneInnerRowConf 0 0]

theorem path_oneInnerRow :
    ∃ l os, (kernelMachine (.csim {})).Path .idle [.frame (.configure oneInnerRow)] l os
      oneInnerRowState := by
  have hstep : (kernelMachine (.csim {})).step .idle (.frame (.configure oneInnerRow)) =
      some ((configureStep (.csim {}) oneInnerRow).1, oneInnerRowState) := rfl
  exact ⟨_, _, .single hstep⟩

/-- The second tuple is inserted and acknowledged, with a full credit. -/
theorem step_surplus :
    step (.csim {}) oneInnerRowState (.frame (.data .inner .int32 surplusRows)) =
      some (surplusAnswer, .ended) := by
  have hfits : LinearHashTable.fits surplusRows := by decide
  have hbuild : buildStep (.csim {}) oneInnerRowConf 0 0 [] surplusRows = (surplusAnswer, .ended) := by
    rw [buildStep, List.nil_append, if_pos hfits]
    rfl
  have hwire : dataRows oneInnerRowConf .int32 surplusRows = some surplusRows := by decide
  change (dataRows oneInnerRowConf .int32 surplusRows).map
    (buildStep (.csim {}) oneInnerRowConf 0 0 []) = _
  rw [hwire, Option.map_some, hbuild]

theorem surplus_acknowledged :
    ∃ es l os st, (kernelMachine (.csim {})).Path .idle es l os st ∧ st.total = 1 ∧
      step (.csim {}) st (.frame (.data .inner .int32 surplusRows)) = some (surplusAnswer, .ended) ∧
      (∃ a, .ack a ∈ surplusAnswer ∧ a.rowsProcessed.toNat = 2 ∧ a.credit.toNat = 512) ∧
      ¬ RowsOk st.total surplusAnswer (st.rowsAfter .inner (surplusRows.map KeyType.int32.wire)) := by
  obtain ⟨l, os, hpath⟩ := path_oneInnerRow
  refine ⟨_, l, os, _, hpath, rfl, step_surplus, ⟨_, List.mem_cons_self, by decide, by decide⟩,
    fun h => ?_⟩
  have hle := (h.acks _ List.mem_cons_self).1
  revert hle
  decide

/-- The table holds both rows when the frame is acknowledged. -/
theorem rows_accounted_iff_oneInnerRow :
    (∃ ins outs v k, Runs (hashJoinKernel (.csim {}) default) ins outs (buildAck v >>= k) ∧
      v.s.ht.Holds surplusRows) ∧
    (RowsOk 1 surplusAnswer
        (oneInnerRowState.rowsAfter .inner (surplusRows.map KeyType.int32.wire)) ↔
      ¬ oneInnerRowState.Surplus .inner (surplusRows.map KeyType.int32.wire)) := by
  obtain ⟨l, os, hpath⟩ := path_oneInnerRow
  obtain ⟨hmem, hiff⟩ := rows_accounted_iff (.csim {}) default hpath step_surplus
  refine ⟨?_, hiff⟩
  obtain ⟨-, -, -, -, -, outs, _, -, hrun, -, v, k, rfl, hholds⟩ := hmem
  have hrows : oneInnerRowState.rowsAfter .inner (surplusRows.map KeyType.int32.wire) = surplusRows := by
    decide
  rw [hrows] at hholds
  exact ⟨_, outs, v, k, hrun, hholds⟩

end FpgaHashJoin
