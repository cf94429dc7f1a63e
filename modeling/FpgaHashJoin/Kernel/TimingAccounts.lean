import FpgaHashJoin.Kernel.TimingLedger

/-!
# The timing record of a session

The record that an Algorithm A session sends agrees with what has been read and sent, in either of
the two places where the kernel completes a session: inside the probe loop, or behind it. The two
differ in the rows that they report. The place behind the loop takes them from CONFIGURE, and that
is wrong when the bound of the probe loop has cut the session short.
-/

namespace FpgaHashJoin

open Process GraceHashEngine

variable {rtl : RtlStreamTiming} {nI nO : Nat} {L : List (Site × Option UInt8)} {O : List TxFrame}

/-- The C simulation sends no debug frames. -/
theorem Ends.debug {α : Type} {level : DbgLevel} {code : DbgCode} {value : UInt32}
    {k : Unit → KProc α} {Q : List (Site × Option UInt8) → List TxFrame → α → Prop}
    (h : Ends L O (k ()) Q) : Ends L O (emitDebug (.csim rtl) level code value >>= k) Q :=
  h

theorem Ends.debugWhen {α : Type} {c : Prop} [Decidable c] {level : DbgLevel} {code : DbgCode}
    {value : UInt32} {k : Unit → KProc α}
    {Q : List (Site × Option UInt8) → List TxFrame → α → Prop} (h : Ends L O (k ()) Q) :
    Ends L O (Proc.when c (emitDebug (.csim rtl) level code value) >>= k) Q := by
  unfold Proc.when
  split <;> exact h

/-! ## Reading a frame -/

/-- The guarded read: a byte, or an ACK of the watchdog. -/
theorem rxByteGuarded_ends (sessionId : UInt8) (hO : Untimed O) :
    Ends L O (rxByteGuarded (.csim rtl) sessionId) fun M P r => Untimed P ∧
      ∀ type, r = some type → M = L ++ [(.msgType, some type)] ∧ P = O := by
  refine Ends.poll fun x => ?_
  cases x with
  | some v =>
    refine Ends.ret ⟨hO, ?_⟩
    rintro _ ⟨rfl⟩
    exact ⟨rfl, rfl⟩
  | none =>
    refine Ends.debug (Ends.put (Ends.pure ⟨?_, by simp⟩))
    exact hO.snoc (by simp)

/-- The header and the tuples of a DATA frame. -/
theorem FrameReads.of_parts {type : MsgType} {count : UInt16} {keytype : UInt8}
    {C B : List (Site × Option UInt8)} (hC : Payload 2 0 C)
    (hB : Payload (count.toNat * (tupleBytesFor keytype).toNat) (count.toNat * 6) B) :
    FrameReads type count keytype ((.msgType, some type.code) :: (C ++ B)) where
  split := ⟨C ++ B, rfl, by simpa using hC.append hB⟩

/-! ## Build phase -/

/-- The build loop of an open session at the start of an iteration. -/
structure BuildOpen (nI nO : Nat) (L : List (Site × Option UInt8)) (O : List TxFrame)
    (v : BuildVars) : Prop where
  kept : Kept ⟨nI, nO, v.innerReceived, 0, 0⟩ L O v.s
  rows : tidBytesIn L = 6 * v.innerReceived
  noOuter : framesIn .outerData L = 0
  acks : acksOut O ≤ framesIn .innerData L + 1

def BuildInv (nI nO : Nat) (L : List (Site × Option UInt8)) (O : List TxFrame) (v : BuildVars) :
    Prop :=
  Untimed O ∧ (v.s.sessionDone = false → BuildOpen nI nO L O v)

theorem BuildInv.of_done {v : BuildVars} (hO : Untimed O) (h : v.s.sessionDone = true) :
    BuildInv nI nO L O v :=
  ⟨hO, fun hrun => absurd (h.symm.trans hrun) (by simp)⟩

theorem Kept.insert {a : Account} {s : Session} (h : Kept a L O s) (ht : LinearHashTable)
    (n : UInt32) : Kept { a with inserts := a.inserts + 1 } L O
      (({ s with ht }.withTiming (·.onBuildSteps n)).withTiming (·.onBuildInsert)) where
  counters := by
    have hnew : ((s.timing.onBuildSteps n).onBuildInsert).counters =
        { (s.timing.onBuildSteps n).counters with
          hashBuildInserts := (s.timing.onBuildSteps n).counters.hashBuildInserts + 1 } := rfl
    refine hnew.trans ?_
    rw [TimingSummaryPayload.counters_onBuildSteps, h.counters]
    simp [Account.tally]
  innerTotal := h.innerTotal
  outerTotal := h.outerTotal
  matched := h.matched
  buffered := h.buffered
  results := h.results

/-- The tuples of a frame, as far as they have been inserted. -/
def Inserted (nI nO start : Nat) (L : List (Site × Option UInt8)) (O : List TxFrame) (i : Nat)
    (M : List (Site × Option UInt8)) (P : List TxFrame) (v : BuildVars) : Prop :=
  M = L ∧ Untimed P ∧ (v.s.sessionDone = false → P = O ∧ v.innerReceived = start + i ∧
    Kept ⟨nI, nO, v.innerReceived, 0, 0⟩ L O v.s)

theorem innerBatch_ends {start i : Nat} {M : List (Site × Option UInt8)} {P : List TxFrame}
    {v : BuildVars} (h : Inserted nI nO start L O i M P v) :
    Ends M P (innerBatch v i) (Inserted nI nO start L O (i + 1)) := by
  obtain ⟨rfl, hP, hopen⟩ := h
  unfold innerBatch
  by_cases hdone : v.s.sessionDone = true
  · rw [if_pos hdone]
    exact Ends.pure ⟨rfl, hP, fun hrun => absurd (hdone.symm.trans hrun) (by simp)⟩
  · rw [if_neg hdone]
    obtain ⟨rfl, hreceived, hkept⟩ := hopen (by simpa using hdone)
    refine Ends.require fun _ => ?_
    dsimp only
    split
    · refine Ends.put (Ends.pure ⟨rfl, hP.snoc (by simp), fun hrun => ?_⟩)
      simp [Session.fail] at hrun
    · refine Ends.pure ⟨rfl, hP, fun _ => ⟨rfl, ?_, ?_⟩⟩
      · show v.innerReceived + 1 = _
        omega
      · exact hkept.insert _ _

/-- The ACK of a frame: at most one, and it is counted. -/
theorem buildAck_ends {v : BuildVars} (hO : Untimed O)
    (hopen : v.s.sessionDone = false → Kept ⟨nI, nO, v.innerReceived, 0, 0⟩ L O v.s) :
    Ends L O (buildAck v) fun M P w => M = L ∧ Untimed P ∧ (w.s.sessionDone = false →
      v.s.sessionDone = false ∧ w.innerReceived = v.innerReceived ∧ acksOut P ≤ acksOut O + 1 ∧
        Kept ⟨nI, nO, w.innerReceived, 0, 0⟩ L P w.s) := by
  unfold buildAck
  by_cases hdone : v.s.sessionDone = true
  · rw [if_pos hdone]
    exact Ends.pure ⟨rfl, hO, fun hrun => absurd (hdone.symm.trans hrun) (by simp)⟩
  · rw [if_neg hdone]
    have hrun : v.s.sessionDone = false := by simpa using hdone
    have hkept := hopen hrun
    dsimp only
    split
    · refine Ends.put (Ends.pure ⟨rfl, hO.snoc (by simp), fun _ => ⟨hrun, rfl, ?_, ?_⟩⟩)
      · simp [acksOut, TxFrame.isAck]
      · exact (hkept.ack _).buildBatch _
    · refine Ends.pure ⟨rfl, hO, fun _ => ⟨hrun, rfl, by omega, ?_⟩⟩
      exact hkept.buildBatch _

/-- The tuples of a frame that has been read. -/
theorem buildTuples_ends {count : UInt16} {v : BuildVars} (hO : Untimed O)
    (hkept : Kept ⟨nI, nO, v.innerReceived, 0, 0⟩ L O v.s)
    (hrows : tidBytesIn L = 6 * (v.innerReceived + count.toNat))
    (hnoOuter : framesIn .outerData L = 0) (hacks : acksOut O ≤ framesIn .innerData L) :
    Ends L O (buildTuples (.csim rtl) count v) fun M P r =>
      Sum.elim (BuildInv nI nO M P) (BuildInv nI nO M P) r := by
  refine Ends.debugWhen ?_
  have hstart : Inserted nI nO v.innerReceived L O 0 L O v := ⟨rfl, hO, fun _ => ⟨rfl, rfl, hkept⟩⟩
  refine Ends.bind (Ends.forRange (Inserted nI nO v.innerReceived L O) hstart
    fun i _ M P w hw => innerBatch_ends hw) ?_
  rintro M P w ⟨rfl, hP, hopen⟩
  have hkept' : w.s.sessionDone = false → Kept ⟨nI, nO, w.innerReceived, 0, 0⟩ M P w.s := by
    intro hrun
    obtain ⟨rfl, -, hk⟩ := hopen hrun
    exact hk
  refine Ends.bind (buildAck_ends hP hkept') ?_
  rintro _ P' w' ⟨rfl, hP', hopen'⟩
  refine Ends.pure ⟨hP', fun hrun => ?_⟩
  obtain ⟨hrun', hsame, hacks', hk⟩ := hopen' hrun
  obtain ⟨rfl, hreceived, -⟩ := hopen hrun'
  refine ⟨hk, ?_, hnoOuter, ?_⟩
  · show _ = 6 * w'.innerReceived
    omega
  · omega

/-- One frame of the build phase. -/
theorem buildFrame_ends {v : BuildVars} (hO : Untimed O) (h : BuildOpen nI nO L O v) :
    Ends L O (buildFrame (.csim rtl) v) fun M P r =>
      Sum.elim (BuildInv nI nO M P) (BuildInv nI nO M P) r := by
  refine Ends.bind (rxByteGuarded_ends _ hO) ?_
  rintro M P r ⟨hP, hr⟩
  cases r with
  | none => exact Ends.pure (BuildInv.of_done hP rfl)
  | some type =>
    obtain ⟨rfl, rfl⟩ := hr type rfl
    refine Ends.bind (Ends.behind (rxU16_consumes (by decide))) ?_
    rintro _ _ count ⟨C, _, rfl, rfl, rfl, hC, -⟩
    rw [List.append_nil]
    dsimp only
    split
    · refine Ends.put (Ends.pure (BuildInv.of_done ?_ rfl))
      exact hP.snoc (by simp)
    · split
      · refine Ends.put (Ends.pure (BuildInv.of_done ?_ rfl))
        exact hP.snoc (by simp)
      next htype =>
        obtain rfl : type = MsgType.innerData.code := by simpa using htype
        refine Ends.bind (Ends.behind (rxBatch_consumes _ _)) ?_
        rintro _ _ _ ⟨B, _, rfl, rfl, rfl, hB, keys, tids, rfl⟩
        have hM : FrameReads .innerData count v.s.keytype _ := FrameReads.of_parts hC hB
        have hlist : L ++ [(Site.msgType, some MsgType.innerData.code)] ++ C ++ B =
            L ++ ((.msgType, some MsgType.innerData.code) :: (C ++ B)) := by simp
        rw [hlist, List.append_nil]
        refine buildTuples_ends hP (h.kept.innerFrame hM keys tids) ?_ ?_ ?_
        · rw [tidBytesIn_append, h.rows, hM.tidBytes]
          show _ = 6 * (v.innerReceived + _)
          omega
        · rw [framesIn_append, h.noOuter, hM.framesIn]
          rfl
        · rw [framesIn_append, hM.framesIn, if_pos rfl]
          exact h.acks

/-- **The build phase keeps the record.** -/
theorem build_ends {v : BuildVars} (h : BuildInv nI nO L O v) :
    Ends L O (Proc.iter (buildBody (.csim rtl)) v) (BuildInv nI nO) := by
  refine Ends.iter (BuildInv nI nO) h ?_
  intro M P w hw
  unfold buildBody
  split
  · exact Ends.pure hw
  next hrun =>
    split
    · exact Ends.pure hw
    · refine buildFrame_ends hw.1 (hw.2 ?_)
      simpa using fun hdone => hrun (Or.inl hdone)

/-! ## Probe phase -/

/-- The account of a session that probes: `n` rows have been inserted. -/
def ProbeVars.account (nI nO n : Nat) (v : ProbeVars) : Account :=
  ⟨nI, nO, n, v.s.matched, v.outerReceived - v.s.matched⟩

/-- The reads of a probe phase start with the header of a frame. -/
def ProbeReads (M : List (Site × Option UInt8)) : Prop :=
  M = [] ∨ ∃ N, M = (.msgType, some MsgType.outerData.code) :: N

theorem ProbeReads.frame {M N : List (Site × Option UInt8)} {count : UInt16} {keytype : UInt8}
    (h : ProbeReads M) (hN : FrameReads .outerData count keytype N) : ProbeReads (M ++ N) := by
  rcases h with rfl | ⟨M', rfl⟩
  · obtain ⟨N', rfl, -⟩ := hN.split
    exact Or.inr ⟨N', rfl⟩
  · exact Or.inr ⟨M' ++ N, rfl⟩

/-- What has been read since the table was built: `r` rows, of which the first `nO` count. -/
structure Probed (nO : Nat) (L₁ L : List (Site × Option UInt8)) (outerReceived : Nat) : Prop where
  reads : ∃ M r, L = L₁ ++ M ∧ ProbeReads M ∧ tidBytesIn M = 6 * r ∧ outerReceived = min nO r

/-- The record inside the probe phase. -/
structure ProbeKept (nI nO n : Nat) (L : List (Site × Option UInt8)) (O : List TxFrame)
    (v : ProbeVars) : Prop where
  running : v.s.sessionDone = false
  untimed : Untimed O
  matched_le : v.s.matched ≤ v.outerReceived
  kept : Kept (v.account nI nO n) L O v.s

section Probe

variable {n : Nat} {v : ProbeVars}

theorem flush_untimed (hO : Untimed O) :
    Ends L O (flushResultBatch v) fun _ P _ => Untimed P := by
  unfold flushResultBatch
  split
  · exact Ends.pure hO
  · exact Ends.put (Ends.pure (hO.snoc (by simp)))

/-- The buffered pairs are sent, and nothing but the buffer and the record changes. -/
theorem Kept.flush {a : Account} (h : Kept a L O v.s) (hO : Untimed O) :
    Ends L O (flushResultBatch v) fun M P w => M = L ∧ Untimed P ∧ Kept a L P w.s ∧
      w.outerReceived = v.outerReceived ∧ w.s.sessionDone = v.s.sessionDone ∧
      w.s.resultBufCnt = 0 ∧ acksOut P = acksOut O := by
  unfold flushResultBatch
  by_cases hcnt : v.s.resultBufCnt = 0
  · rw [if_pos hcnt]
    exact Ends.pure ⟨rfl, hO, h, rfl, rfl, hcnt, rfl⟩
  · rw [if_neg hcnt]
    have hlen := length_bufferedPairs v.s.resultBuf v.s.resultBufCnt
    have hne : bufferedPairs v.s.resultBuf v.s.resultBufCnt ≠ [] := by
      intro hnil
      rw [hnil] at hlen
      exact hcnt hlen.symm
    have hpairs : pairsOut [.results (bufferedPairs v.s.resultBuf v.s.resultBufCnt)] =
        v.s.resultBufCnt := by simp [pairsOut, TxFrame.pairs, hlen]
    have hone : resultsOut [.results (bufferedPairs v.s.resultBuf v.s.resultBufCnt)] = 1 := rfl
    refine Ends.put (Ends.pure ⟨rfl, hO.snoc (by simp), ?_, rfl, rfl, rfl, ?_⟩)
    · refine ⟨?_, h.innerTotal, h.outerTotal, h.matched, ?_, ?_⟩
      · have hnew : (v.s.timing.onResultFrame (3 + UInt32.ofNat v.s.resultBufCnt * 12)).counters =
            { v.s.timing.counters with
              resultFrames := v.s.timing.counters.resultFrames + 1
              bytesTx := v.s.timing.counters.bytesTx +
                (3 + UInt32.ofNat v.s.resultBufCnt * 12) } := rfl
        rw [tally_results _ _ _ hne, hlen]
        rw [h.counters] at hnew
        exact hnew
      · rw [pairsOut_append, hpairs]
        exact h.buffered
      · rw [pairsOut_append, resultsOut_append, hpairs, hone]
        have hle := h.results
        omega
    · simp [acksOut, TxFrame.isAck]

theorem ProbeKept.lookups (h : ProbeKept nI nO n L O v) : v.s.timing.hashProbeLookups =
    ((v.account nI nO n).tally L O).hashProbeLookups := by
  rw [← h.kept.counters]
  rfl

/-- A lookup without a match. -/
theorem ProbeKept.miss (h : ProbeKept nI nO n L O v) (steps : Nat) :
    ProbeKept nI nO n L O (v.looked steps).miss where
  running := h.running
  untimed := h.untimed
  matched_le := h.matched_le.trans (Nat.le_succ _)
  kept := by
    refine ⟨?_, h.kept.innerTotal, h.kept.outerTotal, h.kept.matched, h.kept.buffered,
      h.kept.results⟩
    have hnew : ((v.s.timing.onProbeSteps (UInt32.ofNat steps)).onProbeMiss).counters =
        { (v.s.timing.onProbeSteps (UInt32.ofNat steps)).counters with
          hashProbeMisses :=
            (v.s.timing.onProbeSteps (UInt32.ofNat steps)).counters.hashProbeMisses + 1 } := rfl
    have hle := h.matched_le
    have hmisses : v.outerReceived + 1 - v.s.matched = v.outerReceived - v.s.matched + 1 := by omega
    refine hnew.trans ?_
    rw [TimingSummaryPayload.counters_onProbeSteps, h.kept.counters, h.lookups]
    simp [Account.tally, ProbeVars.account, ProbeVars.miss, ProbeVars.looked, Session.withTiming,
      hmisses, ← Nat.add_assoc]

/-- A lookup with a match, before the row is counted. -/
theorem ProbeKept.hit (h : ProbeKept nI nO n L O v) (steps : Nat) (p : ResultPair) :
    Kept ⟨nI, nO, n, v.s.matched + 1, v.outerReceived - v.s.matched⟩ L O
      ((v.looked steps).storePair p).s where
  counters := by
    have hnew : ((v.s.timing.onProbeSteps (UInt32.ofNat steps)).onProbeHit).counters =
        { (v.s.timing.onProbeSteps (UInt32.ofNat steps)).counters with
          hashProbeHits :=
            (v.s.timing.onProbeSteps (UInt32.ofNat steps)).counters.hashProbeHits + 1 } := rfl
    have hadd : v.s.matched + 1 + (v.outerReceived - v.s.matched) =
        v.s.matched + (v.outerReceived - v.s.matched) + 1 := by omega
    refine hnew.trans ?_
    rw [TimingSummaryPayload.counters_onProbeSteps, h.kept.counters, h.lookups]
    simp [Account.tally, ProbeVars.account, hadd]
  innerTotal := h.kept.innerTotal
  outerTotal := h.kept.outerTotal
  matched := rfl
  buffered := by
    have hbuf : pairsOut O + v.s.resultBufCnt = v.s.matched := h.kept.buffered
    show pairsOut O + (v.s.resultBufCnt + 1) = v.s.matched + 1
    omega
  results := h.kept.results

theorem probeHit_ends (h : ProbeKept nI nO n L O v) (steps : Nat) (p : ResultPair) :
    Ends L O (probeHit (v.looked steps) p) fun M P w => M = L ∧ ProbeKept nI nO n L P w ∧
      w.outerReceived = v.outerReceived + 1 ∧ acksOut P = acksOut O := by
  have hle := h.matched_le
  refine Ends.require fun _ => Ends.bind (Q := fun M P w => M = L ∧ Untimed P ∧
    Kept ⟨nI, nO, n, v.s.matched + 1, v.outerReceived - v.s.matched⟩ L P w.s ∧
    w.outerReceived = v.outerReceived ∧ w.s.sessionDone = v.s.sessionDone ∧
    acksOut P = acksOut O) ?_ ?_
  · unfold flushIfFull
    split
    · refine ((h.hit steps p).flush h.untimed).mono ?_
      rintro M P w ⟨rfl, hP, hkept, hreceived, hdone, -, hacks⟩
      exact ⟨rfl, hP, hkept, hreceived, hdone, hacks⟩
    · exact Ends.pure ⟨rfl, h.untimed, h.hit steps p, rfl, rfl, rfl⟩
  · rintro M P w ⟨rfl, hP, hkept, hreceived, hdone, hacks⟩
    have hmatched : w.s.matched = v.s.matched + 1 := hkept.matched
    refine Ends.pure ⟨rfl, ⟨hdone.trans h.running, hP, ?_, ?_⟩, ?_, hacks⟩
    · show w.s.matched ≤ w.outerReceived + 1
      omega
    · have haccount : ProbeVars.account nI nO n { w with outerReceived := w.outerReceived + 1 } =
          ⟨nI, nO, n, v.s.matched + 1, v.outerReceived - v.s.matched⟩ := by
        simp only [ProbeVars.account, hmatched, hreceived, Account.mk.injEq, true_and]
        omega
      rw [haccount]
      exact hkept
    · show w.outerReceived + 1 = _
      omega

/-- The tuples of a frame, as far as they have been looked up. -/
def Looked (nI nO n start acks : Nat) (L : List (Site × Option UInt8)) (i : Nat)
    (M : List (Site × Option UInt8)) (P : List TxFrame) (v : ProbeVars) : Prop :=
  M = L ∧ ProbeKept nI nO n L P v ∧ v.outerReceived = start + i ∧ acksOut P = acks

theorem outerBatch_ends {start acks i : Nat} {M : List (Site × Option UInt8)} {P : List TxFrame}
    (h : Looked nI nO n start acks L i M P v) :
    Ends M P (outerBatch (.csim rtl) v i) (Looked nI nO n start acks L (i + 1)) := by
  obtain ⟨rfl, hkept, hreceived, hacks⟩ := h
  refine Ends.require fun _ => ?_
  dsimp only
  refine Ends.debugWhen ?_
  split
  · refine Ends.pure ⟨rfl, hkept.miss _, ?_, hacks⟩
    show v.outerReceived + 1 = _
    omega
  next innerTid _ =>
    refine (probeHit_ends hkept _ _).mono ?_
    rintro _ P' w ⟨rfl, hkept', hnext, hacks'⟩
    exact ⟨rfl, hkept', by omega, hacks'.trans hacks⟩

end Probe

/-! ## Completion -/

/-- The session has been completed with the record `t`: it agrees with all reads and all frames,
up to the STATUS frame that it counts as an ACK frame. The record is sent inside the probe loop,
with the rows that have been received, or behind it, with those that CONFIGURE announced. -/
structure Closed (nI nO n : Nat) (L₁ L : List (Site × Option UInt8)) (O : List TxFrame)
    (t : TimingSummaryPayload) (a : Account) (st : StatusPayload) : Prop where
  sent : ∃ O₀, O = O₀ ++ [.timing t, .status st] ∧ Untimed O₀
  counters : t.counters = { a.tally L O with ackFrames := (a.tally L O).ackFrames + 1 }
  matchedRows : t.matchedRows = UInt32.ofNat a.hits
  inserts : a.inserts = n
  probed : Probed nO L₁ L (a.hits + a.misses)
  results : resultsOut O ≤ pairsOut O
  acks : acksOut O ≤ framesIn .innerData L + framesIn .outerData L + 1
  place : (a.innerTotal = n ∧ a.outerTotal = a.hits + a.misses ∧ pairsOut O = a.hits ∧
      st.rowsProcessed = UInt32.ofNat (a.hits + a.misses)) ∨
    (a.innerTotal = nI ∧ a.outerTotal = nO ∧ pairsOut O ≤ a.hits ∧
      (nO = 0 ∨ a.hits + a.misses < nO))

def Ended (nI nO n : Nat) (L₁ L : List (Site × Option UInt8)) (O : List TxFrame) : Prop :=
  ∀ t, .timing t ∈ O → ∃ a st, Closed nI nO n L₁ L O t a st

theorem Ended.of_untimed {n : Nat} {L₁ : List (Site × Option UInt8)} (h : Untimed O) :
    Ended nI nO n L₁ L O :=
  fun t ht => absurd ht (h t)

/-- The only TIMING frame is the one in front of the STATUS. -/
theorem Ended.of_closed {n : Nat} {L₁ : List (Site × Option UInt8)} {t : TimingSummaryPayload}
    {a : Account} {st : StatusPayload} (h : Closed nI nO n L₁ L O t a st) :
    Ended nI nO n L₁ L O := by
  intro t' ht'
  obtain ⟨O₀, rfl, hO₀⟩ := h.sent
  have heq : t' = t := by
    rcases List.mem_append.mp ht' with hmem | hmem
    · exact absurd hmem (hO₀ t')
    · simpa using hmem
  rw [heq]
  exact ⟨a, st, h⟩

theorem applyRtlStreamTiming_none (t : TimingSummaryPayload) : applyRtlStreamTiming t {} = t :=
  if_neg (by decide)

section Final

variable {t : TimingSummaryPayload} {st : StatusPayload}

@[simp] theorem acksOut_final : acksOut [.timing t, .status st] = 0 := rfl

@[simp] theorem pairsOut_final : pairsOut [.timing t, .status st] = 0 := rfl

@[simp] theorem resultsOut_final : resultsOut [.timing t, .status st] = 0 := rfl

end Final

section Probe

variable {n : Nat} {v : ProbeVars} {L₁ : List (Site × Option UInt8)}

/-- The probe loop of an open session at the start of an iteration. -/
structure ProbeOpen (nI nO n : Nat) (L₁ L : List (Site × Option UInt8)) (O : List TxFrame)
    (v : ProbeVars) : Prop where
  kept : ProbeKept nI nO n L O v
  probed : Probed nO L₁ L v.outerReceived
  acks : acksOut O ≤ framesIn .innerData L + framesIn .outerData L + 1
  more : nO = 0 ∨ v.outerReceived < nO

def ProbeInv (nI nO n : Nat) (L₁ L : List (Site × Option UInt8)) (O : List TxFrame)
    (v : ProbeVars) : Prop :=
  (v.s.sessionDone = true ∧ Ended nI nO n L₁ L O) ∨ ProbeOpen nI nO n L₁ L O v

/-- **The record that is sent inside the probe loop.** -/
theorem probeDone_ends (h : ProbeKept nI nO n L O v) (hbuf : v.s.resultBufCnt = 0)
    (hprobed : Probed nO L₁ L v.outerReceived)
    (hacks : acksOut O ≤ framesIn .innerData L + framesIn .outerData L + 1) :
    Ends L O (probeDone (.csim {}) n v) fun M P w =>
      w.s.sessionDone = true ∧ Ended nI nO n L₁ M P := by
  have hle := h.matched_le
  have hpairs : pairsOut O + v.s.resultBufCnt = v.s.matched := h.kept.buffered
  have hsum : v.s.matched + (v.outerReceived - v.s.matched) = v.outerReceived := by omega
  unfold probeDone
  dsimp only [Build.csim]
  rw [applyRtlStreamTiming_none]
  refine Ends.put (Ends.put (Ends.pure ⟨rfl, ?_⟩))
  rw [List.append_assoc, List.singleton_append]
  apply Ended.of_closed (a := ⟨n, v.outerReceived, n, v.s.matched, v.outerReceived - v.s.matched⟩)
  refine ⟨⟨O, rfl, h.untimed⟩, ?_, rfl, rfl, ?_, ?_, ?_, Or.inl ⟨rfl, hsum.symm, ?_, ?_⟩⟩
  · rw [tally_final]
    exact congrArg (fun c : Counters => { c with
      innerRows := UInt32.ofNat n
      outerRows := UInt32.ofNat v.outerReceived
      ackFrames := c.ackFrames + 1
      bytesTx := c.bytesTx + (15 + 3 + 200) }) h.kept.counters
  · dsimp only
    rw [hsum]
    exact hprobed
  · rw [resultsOut_append, pairsOut_append]
    simpa using h.kept.results
  · rw [acksOut_append]
    simpa using hacks
  · rw [pairsOut_append, pairsOut_final]
    dsimp only
    omega
  · dsimp only
    rw [hsum]

/-- The ACK of a frame of the probe phase. -/
theorem probeAck_ends (h : ProbeKept nI nO n L O v) :
    Ends L O (probeAck v) fun M P w => M = L ∧ ProbeKept nI nO n L P w ∧
      w.outerReceived = v.outerReceived ∧ acksOut P ≤ acksOut O + 1 := by
  unfold probeAck
  dsimp only
  split
  · refine Ends.put (Ends.pure ⟨rfl, ⟨h.running, h.untimed.snoc (by simp), h.matched_le, ?_⟩, rfl,
      ?_⟩)
    · exact (h.kept.ack _).probeBatch _
    · simp [acksOut, TxFrame.isAck]
  · refine Ends.pure ⟨rfl, ⟨h.running, h.untimed, h.matched_le, ?_⟩, rfl, by omega⟩
    exact h.kept.probeBatch _

/-- The tuples of a frame that has been read. The rows behind the last one that is expected are
read and not looked up. -/
theorem probeTuples_ends {count : UInt16} (h : ProbeKept nI nO n L O v)
    (hprobed : Probed nO L₁ L (min nO (v.outerReceived + count.toNat)))
    (hle : v.outerReceived ≤ nO)
    (hacks : acksOut O ≤ framesIn .innerData L + framesIn .outerData L) :
    Ends L O (probeTuples (.csim {}) n count v) fun M P r =>
      Sum.elim (ProbeInv nI nO n L₁ M P) (ProbeInv nI nO n L₁ M P) r := by
  refine Ends.debugWhen ?_
  have htotal : v.s.outerTotal = nO := h.kept.outerTotal
  have hstart : Looked nI nO n v.outerReceived (acksOut O) L 0 L O v := ⟨rfl, h, rfl, rfl⟩
  refine Ends.bind (Ends.forRange (Looked nI nO n v.outerReceived (acksOut O) L) hstart
    fun i _ M P w hw => outerBatch_ends hw) ?_
  rintro M P w ⟨rfl, hkept, hreceived, hsame⟩
  have hrows : w.outerReceived = min nO (v.outerReceived + count.toNat) := by
    rw [hreceived, htotal]
    omega
  rw [← hrows] at hprobed
  split
  · refine Ends.bind (hkept.kept.flush hkept.untimed) ?_
    rintro M P' w' ⟨rfl, hP', hk, hsame', hdone, hempty, hacks'⟩
    have hmatched : w'.s.matched = w.s.matched := hk.matched
    have hkept' : ProbeKept nI nO n M P'
        { w' with probeAckPendingFrames := w'.probeAckPendingFrames + 1 } := by
      refine ⟨hdone.trans hkept.running, hP', ?_, ?_⟩
      · show w'.s.matched ≤ w'.outerReceived
        rw [hmatched, hsame']
        exact hkept.matched_le
      · have haccount : w'.account nI nO n = w.account nI nO n := by
          simp only [ProbeVars.account, hmatched, hsame']
        show Kept (w'.account nI nO n) _ P' w'.s
        rw [haccount]
        exact hk
    refine Ends.bind (probeDone_ends hkept' hempty (by rw [← hsame'] at hprobed; exact hprobed)
      (by omega)) ?_
    rintro M' P'' w'' hend
    exact Ends.pure (Or.inl hend)
  next hmore =>
    refine Ends.bind (probeAck_ends (v := { w with
      probeAckPendingFrames := w.probeAckPendingFrames + 1 }) ⟨hkept.running, hkept.untimed,
        hkept.matched_le, hkept.kept⟩) ?_
    rintro _ P' w' ⟨rfl, hk, hsame', hacks'⟩
    have hsame'' : w'.outerReceived = w.outerReceived := hsame'
    have htotal' : w.s.outerTotal = nO := hkept.kept.outerTotal
    rw [not_or, htotal'] at hmore
    refine Ends.pure (Or.inr ⟨⟨hk.running, hk.untimed, hk.matched_le, hk.kept⟩, ?_, ?_, ?_⟩)
    · show Probed nO L₁ _ w'.outerReceived
      rw [hsame'']
      exact hprobed
    · omega
    · show nO = 0 ∨ w'.outerReceived < nO
      omega

/-- One frame of the probe phase. -/
theorem probeFrame_ends (h : ProbeOpen nI nO n L₁ L O v) :
    Ends L O (probeFrame (.csim {}) n v) fun M P r =>
      Sum.elim (ProbeInv nI nO n L₁ M P) (ProbeInv nI nO n L₁ M P) r := by
  refine Ends.bind (rxByteGuarded_ends _ h.kept.untimed) ?_
  rintro M P r ⟨hP, hr⟩
  cases r with
  | none => exact Ends.pure (Or.inl ⟨rfl, .of_untimed hP⟩)
  | some type =>
    obtain ⟨rfl, rfl⟩ := hr type rfl
    refine Ends.bind (Ends.behind (rxU16_consumes (by decide))) ?_
    rintro _ _ count ⟨C, _, rfl, rfl, rfl, hC, -⟩
    rw [List.append_nil]
    dsimp only
    split
    · refine Ends.bind (flush_untimed hP) ?_
      intro M P' w hP'
      refine Ends.put (Ends.pure (Or.inl ⟨rfl, .of_untimed ?_⟩))
      exact hP'.snoc (by simp)
    · split
      · refine Ends.put (Ends.pure (Or.inl ⟨rfl, .of_untimed ?_⟩))
        exact hP.snoc (by simp)
      next htype =>
        obtain rfl : type = MsgType.outerData.code := by simpa using htype
        refine Ends.bind (Ends.behind (rxBatch_consumes _ _)) ?_
        rintro _ _ _ ⟨B, _, rfl, rfl, rfl, hB, keys, tids, rfl⟩
        have hM : FrameReads .outerData count v.s.keytype _ := FrameReads.of_parts hC hB
        have hlist : L ++ [(Site.msgType, some MsgType.outerData.code)] ++ C ++ B =
            L ++ ((.msgType, some MsgType.outerData.code) :: (C ++ B)) := by simp
        rw [hlist, List.append_nil]
        obtain ⟨N, r, hL, hN, htids, hreceived⟩ := h.probed.reads
        refine probeTuples_ends ⟨h.kept.running, hP, h.kept.matched_le,
          h.kept.kept.outerFrame hM keys tids⟩ ⟨_, r + count.toNat, ?_, hN.frame hM, ?_, ?_⟩ ?_ ?_
        · rw [hL, List.append_assoc]
        · rw [tidBytesIn_append, htids, hM.tidBytes]
          omega
        · show min nO (v.outerReceived + _) = _
          omega
        · show v.outerReceived ≤ nO
          omega
        · rw [framesIn_append, framesIn_append, hM.framesIn, hM.framesIn, if_pos rfl]
          have hacks := h.acks
          omega

/-- **The probe phase keeps the record.** -/
theorem probe_ends (h : ProbeInv nI nO n L₁ L O v) :
    Ends L O (Proc.iter (probeBody (.csim {}) n) v) (ProbeInv nI nO n L₁) := by
  refine Ends.iter (ProbeInv nI nO n L₁) h ?_
  intro M P w hw
  unfold probeBody
  split
  · exact Ends.pure hw
  next hrun =>
    split
    · exact Ends.pure hw
    · rcases hw with ⟨hdone, -⟩ | hopen
      · exact absurd (Or.inl hdone) hrun
      · exact probeFrame_ends hopen

/-- **The record that is sent behind the probe loop.** -/
theorem done_ends (h : ProbeOpen nI nO n L₁ L O v) :
    Ends L O (done (.csim {}) v.s) fun M P _ => Ended nI nO n L₁ M P := by
  have hle := h.kept.matched_le
  have hpairs : pairsOut O + v.s.resultBufCnt = v.s.matched := h.kept.kept.buffered
  have hsum : v.s.matched + (v.outerReceived - v.s.matched) = v.outerReceived := by omega
  refine Ends.debug ?_
  dsimp only [Build.csim]
  split
  · rw [applyRtlStreamTiming_none]
    refine Ends.put (Ends.put (Ends.pure ?_))
    rw [List.append_assoc, List.singleton_append]
    apply Ended.of_closed (a := v.account nI nO n)
    refine ⟨⟨O, rfl, h.kept.untimed⟩, ?_, rfl, rfl, ?_, ?_, ?_, Or.inr ⟨rfl, rfl, ?_, ?_⟩⟩
    · rw [tally_final]
      exact congrArg (fun c : Counters => { c with
        ackFrames := c.ackFrames + 1
        bytesTx := c.bytesTx + (15 + 3 + 200) }) h.kept.kept.counters
    · dsimp only [ProbeVars.account]
      rw [hsum]
      exact h.probed
    · rw [resultsOut_append, pairsOut_append]
      simpa using h.kept.kept.results
    · rw [acksOut_append]
      simpa using h.acks
    · rw [pairsOut_append, pairsOut_final]
      dsimp only [ProbeVars.account]
      omega
    · dsimp only [ProbeVars.account]
      rw [hsum]
      exact h.more
  · exact Ends.put (Ends.pure (.of_untimed (h.kept.untimed.snoc (by simp))))

end Probe

/-! ## Whole sessions -/

/-- A session that has sent its record: `n` rows were read before the first outer frame. -/
def SessionEnded (nI nO : Nat) (L : List (Site × Option UInt8)) (O : List TxFrame) : Prop :=
  ∀ t, .timing t ∈ O → ∃ n L₁ a st, tidBytesIn L₁ = 6 * n ∧ framesIn .outerData L₁ = 0 ∧
    Closed nI nO n L₁ L O t a st

theorem Ended.session {n : Nat} {L₁ : List (Site × Option UInt8)} (h : Ended nI nO n L₁ L O)
    (hrows : tidBytesIn L₁ = 6 * n) (hnone : framesIn .outerData L₁ = 0) :
    SessionEnded nI nO L O := by
  intro t ht
  obtain ⟨a, st, hclosed⟩ := h t ht
  exact ⟨n, L₁, a, st, hrows, hnone, hclosed⟩

/-- The probe phase and what follows it. -/
theorem linearProbe_ends {v : BuildVars} (h : BuildInv nI nO L O v) :
    Ends L O (linearProbe (.csim {}) v >>= afterLinear (.csim {})) fun M P _ =>
      SessionEnded nI nO M P := by
  unfold linearProbe
  by_cases hdone : v.s.sessionDone = true
  · rw [if_pos hdone]
    show Ends L O (afterLinear (.csim {}) v.s) _
    rw [afterLinear, if_pos hdone]
    exact Ends.pure fun t ht => absurd ht (h.1 t)
  · rw [if_neg hdone, bind_assoc]
    have hrun : v.s.sessionDone = false := by simpa using hdone
    have hopen := h.2 hrun
    refine Ends.debug ?_
    rw [bind_assoc]
    have hmatched : v.s.matched = 0 := hopen.kept.matched
    have hprobe : ProbeOpen nI nO v.innerReceived L L O ⟨v.s.setStatus .probing, 0, 0, 0, 0⟩ := by
      refine ⟨⟨hrun, h.1, hmatched.le, ?_⟩, ⟨[], 0, by simp, Or.inl rfl, rfl, by simp⟩, ?_, ?_⟩
      · have haccount : ProbeVars.account nI nO v.innerReceived
            ⟨v.s.setStatus .probing, 0, 0, 0, 0⟩ = ⟨nI, nO, v.innerReceived, 0, 0⟩ := by
          simp [ProbeVars.account, Session.setStatus, hmatched]
        rw [haccount]
        exact ⟨hopen.kept.counters, hopen.kept.innerTotal, hopen.kept.outerTotal,
          hopen.kept.matched, hopen.kept.buffered, hopen.kept.results⟩
      · have hacks := hopen.acks
        omega
      · show nO = 0 ∨ 0 < nO
        omega
    refine Ends.bind (probe_ends (Or.inr hprobe)) ?_
    intro M P w hw
    show Ends M P (afterLinear (.csim {}) w.s) _
    unfold afterLinear
    split
    next hend =>
      rcases hw with ⟨-, hended⟩ | hstill
      · exact Ends.pure (hended.session hopen.rows hopen.noOuter)
      · exact absurd (hend.symm.trans hstill.kept.running) (by simp)
    next hstill =>
      rcases hw with ⟨hend, -⟩ | hopen'
      · exact absurd hend hstill
      · refine (done_ends hopen').mono fun M' P' _ hended => ?_
        exact hended.session hopen.rows hopen.noOuter

/-- **An Algorithm A session sends a record that agrees with its reads and its frames.** -/
theorem linearSession_ends {s : Session} (hO : Untimed O) (hkept : Kept ⟨nI, nO, 0, 0, 0⟩ L O s)
    (hrows : tidBytesIn L = 0) (hnone : framesIn .outerData L = 0)
    (hacks : acksOut O ≤ framesIn .innerData L + 1) :
    Ends L O (linearSession (.csim {}) s >>= afterLinear (.csim {})) fun M P _ =>
      SessionEnded nI nO M P := by
  rw [linearSession, bind_assoc]
  have hstart : BuildInv nI nO L O ⟨{ s with ht := s.ht.reset }, 0, 0, 0, 0⟩ := by
    refine ⟨hO, fun _ => ⟨?_, hrows, hnone, hacks⟩⟩
    exact ⟨hkept.counters, hkept.innerTotal, hkept.outerTotal, hkept.matched, hkept.buffered,
      hkept.results⟩
  exact Ends.bind (build_ends hstart) fun M P v hv => linearProbe_ends hv

end FpgaHashJoin
