import FpgaHashJoin.Kernel.GraceSteps

/-!
# The kernel follows the protocol machine

`Rep b st p` says that the process `p` waits in the machine's state `st`: it stands at the
read of the next frame, with variables that represent the rows of the state. Each event the
machine accepts takes the process to a representative of the next state, with the frames
that the machine sends (`kernelMachine`).
-/

namespace FpgaHashJoin

open Process EquiJoin GraceHashEngine KState

/-! ## What is left of the kernel at each read -/

/-- The rest of the kernel after a session. -/
def nextSession (b : Build) (s : Session) : KProc Session :=
  if b.synthesis then .loop (kernelBody b) s .ret else .ret s

def probeRest (b : Build) (v : ProbeVars) : KProc Session :=
  afterLinear b v.s >>= nextSession b

def buildRest (b : Build) (v : BuildVars) : KProc Session :=
  linearProbe b v >>= fun s => afterLinear b s >>= nextSession b

def graceProbeRest (b : Build) (s : Session) (v : PartitionVars) : KProc Session :=
  graceJoin s v >>= fun s => afterGrace b s >>= nextSession b

def graceBuildRest (b : Build) (s : Session) (v : PartitionVars) : KProc Session :=
  graceProbe s v >>= fun s => afterGrace b s >>= nextSession b

/-- The body of a loop that has just started an iteration, and what follows it. -/
def inLoop {σ β : Type} (body : σ → KProc (σ ⊕ β)) (rest : β → KProc Session)
    (p : KProc (σ ⊕ β)) : KProc Session :=
  p >>= Sum.elim (fun s => .loop body s rest) rest

/-- The session is one of Algorithm B whose slots lie inside the memory. -/
structure GraceRep (s : Session) (c : Conf) : Prop where
  conf : s.Configured .algorithmB c
  K_pos : 0 < c.K
  K_le : c.K ≤ graceMaxK
  memory : graceOuterAreaBase + c.K * c.outerSlotW ≤ graceDdr2TotalWords

def Rep (b : Build) : KState → KProc Session → Prop
  | .idle, p => ∃ s : Session,
    p = configure b s.init >>= fun s => afterConfigure b s >>= nextSession b
  | .build c frame pending inner, p => ∃ v, BuildRep v c frame pending inner ∧
    p = inLoop (buildBody b) (buildRest b) (buildFrame b v)
  | .probe c frame pending inner seen buf, p => ∃ v n, ProbeRep v c frame pending inner seen buf ∧
    p = inLoop (probeBody b n) (probeRest b) (probeFrame b n v)
  | .graceBuild c frame inner, p => ∃ s v, GraceRep s c ∧
    PartRep v (innerSide c.innerTotal) c s.ddr2Buf frame inner ∧
    p = inLoop (partitionBody (innerSide c.innerTotal) s.keytype c.K c.sessionId)
      (graceBuildRest b s)
      (partitionFrame (innerSide c.innerTotal) s.keytype c.K c.sessionId v)
  | .graceProbe c frame inner outer, p => ∃ s v, GraceRep s c ∧
    Stored (innerSide c.innerTotal) c s.ddr2Buf s.grace.innerCounts inner ∧
    PartRep v (outerSide c.outerTotal c.outerSlotW) c s.ddr2Buf frame outer ∧
    p = inLoop
      (partitionBody (outerSide c.outerTotal c.outerSlotW) s.keytype c.K c.sessionId)
      (graceProbeRest b s)
      (partitionFrame (outerSide c.outerTotal c.outerSlotW) s.keytype c.K c.sessionId v)
  | .ended, p => ∃ s, p = .ret s

/-- The process sends and then waits, as the reaction says. -/
def Goes (b : Build) (p : KProc Session) (r : Reaction) : Prop :=
  ∃ outs q, Runs p [] outs q ∧ outs.flatMap TxFrame.obs = r.1 ∧ Rep b r.2 q

/-- The process takes the input, and then sends and waits as the reaction says. -/
def Reacts (b : Build) (p : KProc Session) (ins : List (Site × Option UInt8)) (r : Reaction) :
    Prop :=
  ∃ mid, Runs p ins [] mid ∧ Goes b mid r

section Goes

variable {b : Build} {α σ β : Type} {r : Reaction}

theorem Goes.rep {st : KState} {p : KProc Session} (h : Rep b st p) : Goes b p ([], st) :=
  ⟨[], p, .refl p, rfl, h⟩

theorem Goes.emit {p : KProc α} {f : α → KProc Session} {os : List KOut} {a : α}
    (h : Sends p os a) (h' : Goes b (f a) r) : Goes b (p >>= f) (.emit os r) := by
  obtain ⟨outs, hrun, rfl⟩ := h
  obtain ⟨outs', q, hrun', hobs, hq⟩ := h'
  exact ⟨outs ++ outs', q, hrun.seq_silent hrun', by simp [Reaction.emit, hobs], hq⟩

theorem Goes.quiet {p : KProc α} {f : α → KProc Session} {a : α} (h : Sends p [] a)
    (h' : Goes b (f a) r) : Goes b (p >>= f) r :=
  Goes.emit h h'

/-- Entering a loop. -/
theorem Goes.loop {body : σ → KProc (σ ⊕ β)} {rest : β → KProc Session} {s : σ}
    (h : Goes b (inLoop body rest (body s)) r) : Goes b (.loop body s rest) r := by
  obtain ⟨outs, q, hrun, hobs, hq⟩ := h
  exact ⟨outs, q, .tau rfl hrun, hobs, hq⟩

theorem Reacts.of_takes {p : KProc α} {f : α → KProc Session}
    {ins : List (Site × Option UInt8)} {os : List KOut} {a : α} (h : Takes p ins os a)
    (h' : Goes b (f a) r) : Reacts b (p >>= f) ins (.emit os r) := by
  obtain ⟨mid, hread, hsend⟩ := h
  exact ⟨mid >>= f, hread.bind f, Goes.emit hsend h'⟩

end Goes

/-! ## Between the sessions -/

section Ends

variable {b : Build} {s : Session} {c : Conf}

/-- One iteration of the session loop and what follows it. -/
theorem inLoop_kernelBody (b : Build) (s : Session) :
    inLoop (kernelBody b) .ret (kernelBody b s) =
      emitDebug b .info .idleEnter 0 >>= fun _ => configure b s.init >>= fun s =>
        afterConfigure b s >>= nextSession b := by
  have hlast : (fun s => (if b.synthesis then pure (.inl s) else pure (.inr s) :
      KProc (Session ⊕ Session)) >>= Sum.elim (fun s => .loop (kernelBody b) s .ret) .ret) =
      nextSession b := by
    funext s
    unfold nextSession
    split <;> rfl
  have hkernel : kernelBody b s = session b s >>= fun s =>
      if b.synthesis then pure (.inl s) else pure (.inr s) := rfl
  rw [inLoop, hkernel, bind_assoc, hlast]
  simp only [session, bind_assoc]

/-- A new session waits for CONFIGURE. -/
theorem goes_newSession (b : Build) (s : Session) :
    Goes b (.loop (kernelBody b) s .ret) ([], .idle) := by
  refine Goes.loop ?_
  rw [inLoop_kernelBody]
  exact Goes.quiet (Sends.emitDebug b _ _ _) (Goes.rep ⟨s, rfl⟩)

theorem goes_nextSession (b : Build) (s : Session) : Goes b (nextSession b s) (endSession b) := by
  unfold nextSession endSession
  split
  · exact goes_newSession b s
  · exact Goes.rep ⟨s, rfl⟩

/-- What is left after the session has been ended. -/
theorem goes_ended (hdone : s.sessionDone = true) :
    Goes b (afterLinear b s >>= nextSession b) (endSession b) := by
  rw [afterLinear, if_pos hdone]
  exact goes_nextSession b s

theorem afterGrace_eq (h : s.sessionDone = true ∨ s.algorithm = AlgorithmType.algorithmB.code) :
    afterGrace b s = afterLinear b s := by
  have hno : (!s.sessionDone && decide (s.algorithm = AlgorithmType.algorithmA.code)) = false := by
    rcases h with h | h
    · simp [h]
    · rw [h]
      simp [AlgorithmType.code]
  unfold afterGrace
  simp [hno]

theorem afterConfigure_ended (h : s.sessionDone = true) :
    afterConfigure b s = afterLinear b s := by
  unfold afterConfigure
  simp [h, afterGrace_eq (b := b) (Or.inl h)]

theorem afterConfigure_linear (h : s.Configured .algorithmA c) :
    afterConfigure b s = linearSession b s >>= afterLinear b := by
  unfold afterConfigure afterGrace
  simp [h.running, h.algorithm_eq, AlgorithmType.code]

theorem afterConfigure_grace (h : s.Configured .algorithmB c) :
    afterConfigure b s = graceSession s >>= afterGrace b := by
  unfold afterConfigure
  simp [h.running, h.algorithm_eq, AlgorithmType.code]

/-- The final STATUS. Algorithm A sends its timing record in front of it. -/
theorem done_sends (b : Build) {algorithm : AlgorithmType} (hs : s.Configured algorithm c) :
    ∃ s', Sends (done b s)
      ((if algorithm = .algorithmA then [.timing] else []) ++ [doneStatus c 0 s.matched]) s' := by
  rw [doneStatus, ← hs.sessionId]
  cases algorithm with
  | algorithmA =>
    apply Exists.intro
    unfold done
    simp only [Session.setStatus, hs.algorithm_eq, if_true]
    exact (Sends.emitDebug b _ _ _).bind_quiet
      ((Sends.put _).bind ((Sends.pure _).bind_quiet ((Sends.put _).bind (Sends.pure _))))
  | algorithmB =>
    have hno : ¬ AlgorithmType.algorithmB.code = AlgorithmType.algorithmA.code := by decide
    apply Exists.intro
    unfold done
    simp only [Session.setStatus, hs.algorithm_eq, if_neg hno]
    exact (Sends.emitDebug b _ _ _).bind_quiet
      ((Sends.pure _).bind_quiet ((Sends.put _).bind (Sends.pure _)))

theorem goes_done {algorithm : AlgorithmType} (hs : s.Configured algorithm c) :
    Goes b (afterLinear b s >>= nextSession b)
      (.emit ((if algorithm = .algorithmA then [.timing] else []) ++ [doneStatus c 0 s.matched])
        (endSession b)) := by
  obtain ⟨s', hsend⟩ := done_sends b hs
  rw [afterLinear, hs.running, if_neg Bool.false_ne_true]
  exact Goes.emit hsend (goes_nextSession b s')

theorem goes_graceEnded (hdone : s.sessionDone = true) :
    Goes b (afterGrace b s >>= nextSession b) (endSession b) := by
  rw [afterGrace_eq (Or.inl hdone)]
  exact goes_ended hdone

theorem goes_graceDone (hs : s.Configured .algorithmB c) :
    Goes b (afterGrace b s >>= nextSession b)
      (.emit [doneStatus c 0 s.matched] (endSession b)) := by
  rw [afterGrace_eq (Or.inr hs.algorithm_eq)]
  exact goes_done hs

end Ends

/-! ## Heads of the loops -/

section Heads

variable {b : Build} {c : Conf}

/-- A loop that is left at once. -/
theorem Goes.loop_exit {σ β : Type} {body : σ → KProc (σ ⊕ β)} {rest : β → KProc Session} {s : σ}
    {a : β} {r : Reaction} (hbody : body s = pure (.inr a)) (h : Goes b (rest a) r) :
    Goes b (.loop body s rest) r := by
  refine Goes.loop ?_
  rw [hbody]
  exact h

theorem goes_probeEnded {v : ProbeVars} (n : Nat) (hdone : v.s.sessionDone = true) :
    Goes b (.loop (probeBody b n) v (probeRest b)) (endSession b) := by
  refine Goes.loop_exit (a := v) ?_ (goes_ended hdone)
  rw [probeBody, if_pos (Or.inl hdone)]

theorem goes_enterProbe {v : ProbeVars} {frame pending : Nat} {inner seen : List InputTuple}
    {buf : List ResultPair} (n : Nat) (hv : ProbeRep v c frame pending inner seen buf) :
    Goes b (.loop (probeBody b n) v (probeRest b))
      (enterProbe b c frame pending inner seen buf) := by
  have hrun := hv.conf.running
  have htotal := hv.conf.outerTotal
  unfold enterProbe
  by_cases hmore : frame < maxProbeFrames ∧ seen.length < c.outerTotal
  · rw [if_pos hmore]
    refine Goes.loop (Goes.rep ⟨v, n, hv, ?_⟩)
    rw [probeBody, if_neg (by rw [hrun, hv.frame_eq]; simp [hmore.1]),
      if_neg (by rw [htotal, hv.received]; omega)]
  · rw [if_neg hmore]
    refine Goes.loop_exit (a := v) ?_ ?_
    · rw [probeBody, hrun, hv.frame_eq, htotal, hv.received]
      by_cases hframe : frame < maxProbeFrames
      · rw [if_neg (by simp [hframe]), if_pos (by omega)]
      · rw [if_pos (Or.inr hframe)]
    · rw [← hv.matched]
      exact goes_done hv.conf

theorem goes_buildEnded {v : BuildVars} (hdone : v.s.sessionDone = true) :
    Goes b (buildRest b v) (endSession b) := by
  rw [buildRest, linearProbe, if_pos hdone]
  exact goes_ended hdone

theorem goes_enterBuild {v : BuildVars} {frame pending : Nat} {inner : List InputTuple}
    (hv : BuildRep v c frame pending inner) :
    Goes b (.loop (buildBody b) v (buildRest b)) (enterBuild b c frame pending inner) := by
  have hrun := hv.conf.running
  have htotal := hv.conf.innerTotal
  unfold enterBuild
  by_cases hmore : frame ≤ htMaxRows + 1 ∧ inner.length < c.innerTotal
  · rw [if_pos hmore]
    refine Goes.loop (Goes.rep ⟨v, hv, ?_⟩)
    rw [buildBody, if_neg (by rw [hrun, hv.frame_eq]; simpa using hmore.1),
      if_neg (by rw [htotal, hv.received]; omega)]
  · rw [if_neg hmore]
    refine Goes.loop_exit (a := v) ?_ ?_
    · rw [buildBody, hrun, hv.frame_eq, htotal, hv.received]
      by_cases hframe : frame ≤ htMaxRows + 1
      · rw [if_neg (by simpa using hframe), if_pos (by omega)]
      · rw [if_pos (Or.inr hframe)]
    · rw [buildRest, linearProbe, if_neg (by simp [hrun]), bind_assoc]
      refine Goes.quiet (Sends.emitDebug b _ _ _) ?_
      refine goes_enterProbe v.innerReceived ⟨hv.conf, rfl, rfl, rfl, hv.table, ?_, by simp, ?_⟩
      · simp [Session.setStatus, hv.noPairs, bufferedPairs]
      · simp [Session.setStatus, hv.noMatch]

theorem GraceRep.innerValid {s : Session} (h : GraceRep s c) :
    (innerSide c.innerTotal).Valid c.K :=
  innerSide_valid c.innerTotal h.K_le

theorem GraceRep.outerValid {s : Session} (h : GraceRep s c) :
    (outerSide c.outerTotal c.outerSlotW).Valid c.K :=
  outerSide_valid c.outerTotal h.memory

theorem GraceRep.distributes {s : Session} {side : Side} (h : GraceRep s c)
    (hvalid : side.Valid c.K) : Distributes side c s.keytype :=
  ⟨hvalid, h.conf.keyType, h.K_pos, h.K_le⟩

theorem goes_graceProbeEnded {s : Session} {v : PartitionVars} (herr : v.err ≠ .none) :
    Goes b (graceProbeRest b s v) (endSession b) := by
  rw [graceProbeRest, graceJoin, if_pos herr]
  exact Goes.quiet (Sends.pure _) (goes_graceEnded rfl)

theorem goes_graceBuildEnded {s : Session} {v : PartitionVars} (herr : v.err ≠ .none) :
    Goes b (graceBuildRest b s v) (endSession b) := by
  rw [graceBuildRest, graceProbe, if_pos herr]
  exact Goes.quiet (Sends.pure _) (goes_graceEnded rfl)

/-- The outer rows do not touch the memory of the inner ones. -/
theorem GraceRep.loaded {s : Session} {ddr2 : Nat → Int64} {counts : Nat → Nat}
    {inner outer : List InputTuple} (h : GraceRep s c)
    (hinner : Stored (innerSide c.innerTotal) c s.ddr2Buf s.grace.innerCounts inner)
    (houter : Stored (outerSide c.outerTotal c.outerSlotW) c ddr2 counts outer)
    (hbelow : ∀ a, a < (outerSide c.outerTotal c.outerSlotW).base → ddr2 a = s.ddr2Buf a) :
    Loaded c ⟨s.grace.innerCounts, counts⟩ ddr2 inner outer := by
  refine ⟨hinner.congr h.innerValid ?_, houter, h.innerValid, h.outerValid, h.K_le⟩
  intro a ha
  exact hbelow a (ha.trans_le (inner_below_outer _ _ _ h.K_le))

theorem goes_graceFinish {s : Session} {v : PartitionVars} {frame : Nat}
    {inner outer : List InputTuple} (h : GraceRep s c)
    (hinner : Stored (innerSide c.innerTotal) c s.ddr2Buf s.grace.innerCounts inner)
    (hv : PartRep v (outerSide c.outerTotal c.outerSlotW) c s.ddr2Buf frame outer) :
    Goes b (graceProbeRest b s v) (graceFinish b c inner outer) := by
  obtain ⟨j, hsend, hj⟩ := joinAllPartitions_sends (h.loaded hinner hv.stored hv.below) s.ht
    s.resultBuf
  unfold graceFinish
  rw [graceProbeRest, graceJoin, if_neg (not_not.mpr hv.noError), bind_assoc]
  have hjoin : Sends (joinAllPartitions ⟨s.grace.innerCounts, v.counts⟩ s.K s.outerSlotW v.ddr2 s.ht
      s.resultBuf) (joinParts c inner outer (List.range c.K)).1 j := by
    rw [h.conf.K, h.conf.outerSlotW]
    exact hsend
  refine Goes.emit hjoin ?_
  by_cases hok : (joinParts c inner outer (List.range c.K)).2 = true
  · rw [if_pos hok] at hj ⊢
    obtain ⟨herr, hmatched⟩ := hj
    rw [if_neg (not_not.mpr herr), ← hmatched]
    exact Goes.quiet (Sends.pure _) (goes_graceDone h.conf)
  · rw [if_neg hok] at hj ⊢
    rw [if_pos (by rw [hj]; decide)]
    exact Goes.quiet (Sends.pure _) (goes_graceEnded rfl)

/-- The head of a distribution loop: another frame is read, or the loop is left. -/
theorem partitionBody_head {side : Side} (keytype : UInt8) {v : PartitionVars}
    {ddr2 : Nat → Int64} {frame : Nat} {rows : List InputTuple}
    (hv : PartRep v side c ddr2 frame rows) :
    partitionBody side keytype c.K c.sessionId v =
      if frame ≤ (UInt32.ofNat side.total + 1).toNat ∧ rows.length < side.total then
        partitionFrame side keytype c.K c.sessionId v
      else pure (.inr v) := by
  rw [partitionBody, hv.frame_eq, hv.received]
  by_cases hframe : frame ≤ (UInt32.ofNat side.total + 1).toNat
  · by_cases hrows : side.total ≤ rows.length
    · rw [if_neg (not_not.mpr hframe), if_pos hrows, if_neg (by omega)]
    · rw [if_neg (not_not.mpr hframe), if_neg hrows, if_pos ⟨hframe, by omega⟩]
  · rw [if_pos hframe, if_neg (fun h => hframe h.1)]

theorem goes_enterGraceProbe {s : Session} {v : PartitionVars} {frame : Nat}
    {inner outer : List InputTuple} (h : GraceRep s c)
    (hinner : Stored (innerSide c.innerTotal) c s.ddr2Buf s.grace.innerCounts inner)
    (hv : PartRep v (outerSide c.outerTotal c.outerSlotW) c s.ddr2Buf frame outer) :
    Goes b (.loop (partitionBody (outerSide c.outerTotal c.outerSlotW) s.keytype c.K c.sessionId) v
      (graceProbeRest b s)) (enterGraceProbe b c frame inner outer) := by
  have hhead := partitionBody_head s.keytype hv
  unfold enterGraceProbe
  by_cases hmore : frame ≤ (UInt32.ofNat c.outerTotal + 1).toNat ∧ outer.length < c.outerTotal
  · rw [if_pos hmore]
    refine Goes.loop (Goes.rep ⟨s, v, h, hinner, hv, ?_⟩)
    rw [hhead]
    exact congrArg _ (if_pos hmore)
  · rw [if_neg hmore]
    exact Goes.loop_exit (hhead.trans (if_neg hmore)) (goes_graceFinish h hinner hv)

theorem goes_enterGraceBuild {s : Session} {v : PartitionVars} {frame : Nat}
    {inner : List InputTuple} (h : GraceRep s c)
    (hv : PartRep v (innerSide c.innerTotal) c s.ddr2Buf frame inner) :
    Goes b (.loop (partitionBody (innerSide c.innerTotal) s.keytype c.K c.sessionId) v
      (graceBuildRest b s)) (enterGraceBuild b c frame inner) := by
  have hhead := partitionBody_head s.keytype hv
  unfold enterGraceBuild
  by_cases hmore : frame ≤ (UInt32.ofNat c.innerTotal + 1).toNat ∧ inner.length < c.innerTotal
  · rw [if_pos hmore]
    refine Goes.loop (Goes.rep ⟨s, v, h, hv, ?_⟩)
    rw [hhead]
    exact congrArg _ (if_pos hmore)
  · rw [if_neg hmore]
    refine Goes.loop_exit (hhead.trans (if_neg hmore)) ?_
    rw [graceBuildRest, graceProbe, if_neg (not_not.mpr hv.noError)]
    let s' : Session := { s with ddr2Buf := v.ddr2, grace := ⟨v.counts, fun _ => 0⟩ }.setStatus .probing
    have hs' : GraceRep s' c := ⟨h.conf, h.K_pos, h.K_le, h.memory⟩
    have hstart : PartRep ⟨v.ddr2, fun _ => 0, 0, 0, .none⟩ (outerSide c.outerTotal c.outerSlotW) c
        s'.ddr2Buf 0 [] :=
      ⟨rfl, rfl, rfl, stored_nil _ _ _, fun _ _ => rfl⟩
    have hgo := goes_enterGraceProbe (b := b) hs' hv.stored hstart
    rw [← hs'.conf.outerTotal, ← hs'.conf.outerSlotW, ← hs'.conf.K, ← hs'.conf.sessionId] at hgo
    exact hgo

end Heads

/-! ## Frames -/

section Frames

variable {b : Build} {c : Conf}

theorem rxByteGuarded_frame (b : Build) (sessionId v : UInt8) :
    Runs (rxByteGuarded b sessionId) [(.msgType, some v)] [] (.ret (some v)) :=
  .poll rfl (.refl _)

theorem rxByteGuarded_watchdog (b : Build) (sessionId : UInt8) :
    Takes (rxByteGuarded b sessionId) [(.msgType, none)]
      [idleAck sessionId (UInt16.ofNat rxCreditTuples) 0 0] none := by
  refine ⟨_, .poll rfl (.refl _), ?_⟩
  exact (Sends.emitDebug b _ _ _).bind_quiet ((Sends.put _).bind (Sends.pure _))

/-- The header of a frame behind the guarded read. -/
theorem Takes.guarded {α : Type} {f : Option UInt8 → KProc α} {g : UInt16 → KProc α}
    {ins : List (Site × Option UInt8)} {os : List KOut} {a : α} {sessionId : UInt8}
    {type : MsgType} {count : Nat} (hf : f (some type.code) = rxU16 .count >>= g)
    (h : Takes (g (UInt16.ofNat count)) ins os a) :
    Takes (rxByteGuarded b sessionId >>= f) (headerReads type count ++ ins) os a := by
  rw [headerReads, List.cons_append, ← List.singleton_append]
  refine Takes.after (rxByteGuarded_frame b sessionId type.code) ?_
  rw [hf]
  exact Takes.after (rxU16_runs .count _) h

/-- A frame of which only the header is read. -/
theorem Takes.guardedHeader {α : Type} {f : Option UInt8 → KProc α} {g : UInt16 → KProc α}
    {os : List KOut} {a : α} {sessionId : UInt8} {type : MsgType} {count : Nat}
    (hf : f (some type.code) = rxU16 .count >>= g) (h : Sends (g (UInt16.ofNat count)) os a) :
    Takes (rxByteGuarded b sessionId >>= f) (headerReads type count) os a := by
  rw [← List.append_nil (headerReads type count)]
  exact Takes.guarded hf h.takes

/-! ### Build phase of Algorithm A -/

section Build

variable {v : BuildVars} {frame pending : Nat} {inner : List InputTuple}

/-- A DATA frame of the build phase is read into the receive buffers. -/
theorem buildFrame_reads (hv : BuildRep v c frame pending inner) {ts : List InputTuple}
    (hlen : ts.length ≤ rxBufTuples) :
    ∃ v', Runs (buildFrame b v) (HostFrame.data .inner c.keyType ts).reads []
        (buildTuples b (UInt16.ofNat ts.length) v') ∧
      BuildRep v' c frame pending inner ∧ v'.s.Buffered (ts.map c.keyType.wire) := by
  have hcount := toNat_frameCount hlen
  let cycles := 3 + (UInt16.ofNat ts.length).toUInt64 * tupleBytesFor v.s.keytype
  let s := v.s.withTiming (·.onInnerFrame cycles)
  obtain ⟨keys, tids, hread, hbuf⟩ := rxBatch_runs (s := s) hv.conf.keyType hlen
  let v' : BuildVars :=
    { v with s := { s with rxKeyBuf := keys, rxTidBuf := tids }, buildBatchCycles := cycles }
  have hv' : BuildRep v' c frame pending inner :=
    ⟨hv.conf, hv.frame_eq, hv.pending_eq, hv.received, hv.table, hv.noPairs, hv.noMatch⟩
  refine ⟨v', ?_, hv', hbuf⟩
  rw [HostFrame.reads, headerReads, List.cons_append, ← List.singleton_append]
  refine (rxByteGuarded_frame b _ _).seq_reads ((rxU16_runs .count _).seq_reads ?_)
  dsimp only
  rw [if_neg (by decide), if_neg (by decide), hcount]
  exact hread.seq_then (.refl _)

theorem build_data (hv : BuildRep v c frame pending inner) {ts : List InputTuple}
    (hlen : ts.length ≤ rxBufTuples) :
    Reacts b (inLoop (buildBody b) (buildRest b) (buildFrame b v))
      (HostFrame.data .inner c.keyType ts).reads
      (buildStep b c frame pending inner (ts.map c.keyType.wire)) := by
  obtain ⟨v', hread, hv', hbuf⟩ := buildFrame_reads (b := b) hv hlen
  have htake : ∀ {os : List KOut} {w : BuildVars},
      Sends (buildTuples b (UInt16.ofNat ts.length) v') os (.inl w) →
      Takes (buildFrame b v) (HostFrame.data .inner c.keyType ts).reads os (.inl w) :=
    fun hsend => ⟨_, hread, hsend⟩
  have hsends := buildTuples_sends b hv' hbuf (by simpa using hlen) (UInt16.ofNat ts.length)
    (by simpa using toNat_frameCount hlen)
  unfold buildStep
  split at hsends
  next hfits =>
    rw [if_pos hfits]
    split at hsends
    next hack =>
      rw [if_pos hack]
      obtain ⟨w, hsend, hw⟩ := hsends
      exact Reacts.of_takes (htake hsend) (goes_enterBuild hw)
    next hack =>
      rw [if_neg hack]
      obtain ⟨w, hsend, hw⟩ := hsends
      exact Reacts.of_takes (htake hsend) (goes_enterBuild hw)
  next hfits =>
    rw [if_neg hfits]
    obtain ⟨w, hsend, hdone⟩ := hsends
    refine Reacts.of_takes (htake hsend) ?_
    refine Goes.loop_exit (a := w) ?_ (goes_buildEnded hdone)
    rw [buildBody, if_pos (Or.inl hdone)]

theorem build_watchdog (hv : BuildRep v c frame pending inner) :
    Reacts b (inLoop (buildBody b) (buildRest b) (buildFrame b v)) KEvent.watchdog.reads
      (.emit [idleAck c.sessionId (UInt16.ofNat rxCreditTuples) 0 0] (endSession b)) := by
  have htake : Takes (buildFrame b v) KEvent.watchdog.reads
      [idleAck c.sessionId (UInt16.ofNat rxCreditTuples) 0 0] (.inr { v with s := v.s.finish }) := by
    rw [← hv.conf.sessionId]
    exact (rxByteGuarded_watchdog b v.s.sessionId).bind (Sends.pure _)
  exact Reacts.of_takes htake (goes_buildEnded rfl)

theorem build_reset (hv : BuildRep v c frame pending inner) :
    Reacts b (inLoop (buildBody b) (buildRest b) (buildFrame b v)) HostFrame.reset.reads
      (.emit [idleAck c.sessionId 0 0 0] (endSession b)) := by
  have htake : ∃ w, Takes (buildFrame b v) HostFrame.reset.reads [idleAck c.sessionId 0 0 0]
      (.inr w) ∧ w.s.sessionDone = true := by
    rw [← hv.conf.sessionId]
    refine ⟨_, Takes.guardedHeader rfl ((Sends.put _).bind (Sends.pure _)), rfl⟩
  obtain ⟨w, hw, hdone⟩ := htake
  exact Reacts.of_takes hw (goes_buildEnded hdone)

theorem build_reject (v : BuildVars) (type : MsgType) (count : Nat) (hreset : type ≠ .reset)
    (htype : type ≠ .innerData) :
    Reacts b (inLoop (buildBody b) (buildRest b) (buildFrame b v)) (headerReads type count)
      (.emit [.error FpgaError.badState.code] (endSession b)) := by
  have htake : ∃ w, Takes (buildFrame b v) (headerReads type count)
      [.error FpgaError.badState.code] (.inr w) ∧ w.s.sessionDone = true := by
    refine ⟨{ v with
      s := (v.s.withTiming (·.onInnerFrame
        (3 + (UInt16.ofNat count).toUInt64 * tupleBytesFor v.s.keytype))).fail .badState
      buildBatchCycles := 3 + (UInt16.ofNat count).toUInt64 * tupleBytesFor v.s.keytype },
      Takes.guardedHeader rfl ?_, rfl⟩
    rw [if_neg (mt MsgType.code_inj.mp hreset), if_pos (mt MsgType.code_inj.mp htype)]
    exact (Sends.put _).bind (Sends.pure _)
  obtain ⟨w, hw, hdone⟩ := htake
  exact Reacts.of_takes hw (goes_buildEnded hdone)

end Build

/-! ### Probe phase of Algorithm A -/

section Probe

variable {v : ProbeVars} {n frame pending : Nat} {inner seen : List InputTuple}
  {buf : List ResultPair}

theorem probe_data (hv : ProbeRep v c frame pending inner seen buf) {ts : List InputTuple}
    (hlen : ts.length ≤ rxBufTuples) :
    Reacts b (inLoop (probeBody b n) (probeRest b) (probeFrame b n v))
      (HostFrame.data .outer c.keyType ts).reads
      (probeStep b c frame pending inner seen buf (ts.map c.keyType.wire)) := by
  have hcount := toNat_frameCount hlen
  let cycles := 3 + (UInt16.ofNat ts.length).toUInt64 * tupleBytesFor v.s.keytype
  let s := v.s.withTiming (·.onOuterFrame cycles)
  obtain ⟨keys, tids, hread, hbuf⟩ := rxBatch_runs (s := s) hv.conf.keyType hlen
  let v' : ProbeVars :=
    { v with s := { s with rxKeyBuf := keys, rxTidBuf := tids }, probeBatchCycles := cycles }
  have hv' : ProbeRep v' c frame pending inner seen buf :=
    ⟨hv.conf, hv.frame_eq, hv.pending_eq, hv.received, hv.table, hv.pairs, hv.room, hv.matched⟩
  have htake : ∀ {os : List KOut} {w : ProbeVars},
      Sends (probeTuples b n (UInt16.ofNat ts.length) v') os (.inl w) →
      Takes (probeFrame b n v) (HostFrame.data .outer c.keyType ts).reads os (.inl w) := by
    intro os w hsend
    refine Takes.guarded rfl ?_
    rw [if_neg (by decide), if_neg (by decide), hcount]
    exact Takes.intro hread hsend
  have hsends := probeTuples_sends b n hv' hbuf (by simpa using hlen)
    (UInt16.ofNat ts.length) (by simpa using hcount)
  unfold probeStep
  dsimp only at hsends ⊢
  split at hsends
  next hend =>
    rw [if_pos hend, Reaction.emit_emit]
    obtain ⟨w, hsend, hdone⟩ := hsends
    exact Reacts.of_takes (htake hsend) (goes_probeEnded n hdone)
  next hend =>
    rw [if_neg hend]
    split at hsends
    next hack =>
      rw [if_pos hack, Reaction.emit_emit]
      obtain ⟨w, hsend, hw⟩ := hsends
      exact Reacts.of_takes (htake hsend) (goes_enterProbe n hw)
    next hack =>
      rw [if_neg hack]
      obtain ⟨w, hsend, hw⟩ := hsends
      exact Reacts.of_takes (htake hsend) (goes_enterProbe n hw)

theorem probe_watchdog (hv : ProbeRep v c frame pending inner seen buf) :
    Reacts b (inLoop (probeBody b n) (probeRest b) (probeFrame b n v)) KEvent.watchdog.reads
      (.emit [idleAck c.sessionId (UInt16.ofNat rxCreditTuples) 0 0] (endSession b)) := by
  have htake : Takes (probeFrame b n v) KEvent.watchdog.reads
      [idleAck c.sessionId (UInt16.ofNat rxCreditTuples) 0 0] (.inr { v with s := v.s.finish }) := by
    rw [← hv.conf.sessionId]
    exact (rxByteGuarded_watchdog b v.s.sessionId).bind (Sends.pure _)
  exact Reacts.of_takes htake (goes_ended rfl)

theorem probe_reset (hv : ProbeRep v c frame pending inner seen buf) :
    Reacts b (inLoop (probeBody b n) (probeRest b) (probeFrame b n v)) HostFrame.reset.reads
      (.emit ((Batching.flush buf).map .results ++
        [idleAck c.sessionId 0 seen.length (join inner seen).length]) (endSession b)) := by
  have htake : ∃ w, Takes (probeFrame b n v) HostFrame.reset.reads
      ((Batching.flush buf).map .results ++
        [idleAck c.sessionId 0 seen.length (join inner seen).length]) (.inr w) ∧
      w.s.sessionDone = true := by
    let cycles := 3 + (UInt16.ofNat 0).toUInt64 * tupleBytesFor v.s.keytype
    let v' : ProbeVars :=
      { v with s := v.s.withTiming (·.onOuterFrame cycles), probeBatchCycles := cycles }
    obtain ⟨w, hflush, -, hconf, -, -, hrecv, -, hmatched, -, -⟩ :=
      flushResultBatch_sends (v := v') hv.pairs
    rw [← hv.received, ← hv.matched, ← (hconf hv.conf).sessionId]
    have hack : idleAck w.s.sessionId 0 v.outerReceived v.s.matched =
        idleAck w.s.sessionId 0 w.outerReceived w.s.matched := by
      rw [hrecv, hmatched]
      rfl
    rw [hack]
    exact ⟨_, Takes.guardedHeader rfl (hflush.bind ((Sends.put _).bind (Sends.pure _))), rfl⟩
  obtain ⟨w, hw, hdone⟩ := htake
  exact Reacts.of_takes hw (goes_ended hdone)

theorem probe_reject (v : ProbeVars) (type : MsgType) (count : Nat) (hreset : type ≠ .reset)
    (htype : type ≠ .outerData) :
    Reacts b (inLoop (probeBody b n) (probeRest b) (probeFrame b n v)) (headerReads type count)
      (.emit [.error FpgaError.invalidCmd.code] (endSession b)) := by
  have htake : ∃ w, Takes (probeFrame b n v) (headerReads type count)
      [.error FpgaError.invalidCmd.code] (.inr w) ∧ w.s.sessionDone = true := by
    refine ⟨{ v with
      s := (v.s.withTiming (·.onOuterFrame
        (3 + (UInt16.ofNat count).toUInt64 * tupleBytesFor v.s.keytype))).fail .invalidCmd
      probeBatchCycles := 3 + (UInt16.ofNat count).toUInt64 * tupleBytesFor v.s.keytype },
      Takes.guardedHeader rfl ?_, rfl⟩
    rw [if_neg (mt MsgType.code_inj.mp hreset), if_pos (mt MsgType.code_inj.mp htype)]
    exact (Sends.put _).bind (Sends.pure _)
  obtain ⟨w, hw, hdone⟩ := htake
  exact Reacts.of_takes hw (goes_ended hdone)

end Probe

/-! ### CONFIGURE -/

theorem rxConfigure_runs (p : ConfigurePayload) :
    Runs rxConfigure (tagged .config (configureBytes p)) [] (.ret p) := by
  simp only [configureBytes, tagged_append, List.append_assoc]
  have hbyte : ∀ v, Runs (rxByte .config) [(.config, some v)] [] (.ret v) := fun v => Runs.read _ _
  have hhead : tagged Site.config [p.algorithm, p.keyType] =
      [(.config, some p.algorithm)] ++ [(.config, some p.keyType)] := rfl
  rw [hhead, List.append_assoc]
  exact (hbyte _).seq_reads ((hbyte _).seq_reads ((rxU16_runs _ _).seq_reads
    ((rxU32_runs _ _).seq_reads ((rxU32_runs _ _).seq_reads ((hbyte _).seq_pure _)))))

/-- What CONFIGURE admits for Algorithm B lies inside the memory. -/
theorem checkConfigure_grace {innerTotal outerTotal K outerSlotW : Nat}
    (h : checkConfigure AlgorithmType.algorithmB.code innerTotal outerTotal = .ok (K, outerSlotW)) :
    0 < K ∧ K ≤ graceMaxK ∧ graceOuterAreaBase + K * outerSlotW ≤ graceDdr2TotalWords := by
  rw [checkConfigure, if_neg (by decide), if_pos rfl] at h
  by_cases hrows : graceMaxInnerRows < innerTotal
  · rw [if_pos hrows] at h
    cases h
  · rw [if_neg hrows] at h
    rw [graceMaxInnerRows_eq] at hrows
    dsimp only at h
    generalize hK : (if (innerTotal + htMaxRows - 1) / htMaxRows = 0 then 1
      else (innerTotal + htMaxRows - 1) / htMaxRows) = parts at h
    have hparts : 0 < parts ∧ parts ≤ 256 := by
      rw [← hK, htMaxRows_eq]
      split <;> omega
    split at h
    · cases h
    next hmem =>
      simp only [Except.ok.injEq, Prod.mk.injEq] at h
      obtain ⟨rfl, rfl⟩ := h
      exact ⟨hparts.1, hparts.2, by omega⟩

/-- The width of the outer slots, and the bound on the inner rows. -/
theorem checkConfigure_slots {innerTotal outerTotal K outerSlotW : Nat}
    (h : checkConfigure AlgorithmType.algorithmB.code innerTotal outerTotal = .ok (K, outerSlotW)) :
    innerTotal ≤ graceMaxInnerRows ∧
      outerSlotW = ((outerTotal / K + 1) * graceWordsPerTuple * 2) % 2 ^ 32 := by
  rw [checkConfigure, if_neg (by decide), if_pos rfl] at h
  by_cases hrows : graceMaxInnerRows < innerTotal
  · rw [if_pos hrows] at h
    cases h
  · rw [if_neg hrows] at h
    dsimp only at h
    generalize (if (innerTotal + htMaxRows - 1) / htMaxRows = 0 then 1
      else (innerTotal + htMaxRows - 1) / htMaxRows) = parts at h
    split at h
    · cases h
    next =>
      simp only [Except.ok.injEq, Prod.mk.injEq] at h
      obtain ⟨rfl, rfl⟩ := h
      exact ⟨not_lt.mp hrows, rfl⟩

theorem checkConfigure_algorithm {algorithm : UInt8} {innerTotal outerTotal K outerSlotW : Nat}
    (h : checkConfigure algorithm innerTotal outerTotal = .ok (K, outerSlotW)) :
    algorithm = AlgorithmType.algorithmA.code ∨ algorithm = AlgorithmType.algorithmB.code := by
  by_cases hA : algorithm = AlgorithmType.algorithmA.code
  · exact Or.inl hA
  · by_cases hB : algorithm = AlgorithmType.algorithmB.code
    · exact Or.inr hB
    · rw [checkConfigure, if_neg hA, if_neg hB] at h
      cases h

/-- The configuration that the session has after an accepted CONFIGURE. -/
theorem accept_sends {s : Session} {p : ConfigurePayload} (algorithm : AlgorithmType)
    {K outerSlotW : Nat} (halg : p.algorithm = algorithm.code)
    (hcheck : checkConfigure p.algorithm p.innerCount.toNat p.outerCount.toNat = .ok (K, outerSlotW)) :
    ∃ s', Sends (accept b s.init p) [.ack
        { phase := Phase.building.code
          sessionId := p.sessionId
          credit := UInt16.ofNat rxCreditTuples }] s' ∧
      s'.Configured algorithm ⟨p.sessionId, KeyType.ofCode p.keyType, p.innerCount.toNat,
        p.outerCount.toNat, K, outerSlotW⟩ ∧ s'.resultBufCnt = 0 ∧ s'.matched = 0 := by
  apply Sends.out
  · unfold accept
    simp only [hcheck]
    exact (Sends.emitDebug b _ _ _).bind_quiet ((Sends.put _).bind (Sends.pure _))
  · exact ⟨⟨rfl, halg, rfl, rfl, rfl, rfl, rfl, rfl⟩, rfl, rfl⟩

theorem accept_fails {s : Session} {p : ConfigurePayload} {e : FpgaError}
    (hcheck : checkConfigure p.algorithm p.innerCount.toNat p.outerCount.toNat = .error e) :
    ∃ s', Sends (accept b s p) [.error e.code] s' ∧ s'.sessionDone = true := by
  apply Sends.out
  · unfold accept
    simp only [hcheck]
    exact (Sends.emitDebug b _ _ _).bind_quiet ((Sends.put _).bind (Sends.pure _))
  · rfl

/-- The start of the build phase of Algorithm A. -/
theorem goes_linearSession {s : Session} (hs : s.Configured .algorithmA c)
    (hpairs : s.resultBufCnt = 0) (hmatched : s.matched = 0) :
    Goes b (afterConfigure b s >>= nextSession b) (enterBuild b c 0 0 []) := by
  rw [afterConfigure_linear hs, linearSession, bind_assoc, bind_assoc]
  exact goes_enterBuild ⟨hs, rfl, rfl, rfl, LinearHashTable.Holds.reset s.ht, hpairs, hmatched⟩

/-- The start of the build phase of Algorithm B. -/
theorem goes_graceSession {s : Session} (hs : GraceRep s c) :
    Goes b (afterConfigure b s >>= nextSession b) (enterGraceBuild b c 0 []) := by
  have hstart : PartRep ⟨s.ddr2Buf, fun _ => 0, 0, 0, .none⟩ (innerSide c.innerTotal) c
      s.ddr2Buf 0 [] :=
    ⟨rfl, rfl, rfl, stored_nil _ _ _, fun _ _ => rfl⟩
  rw [afterConfigure_grace hs.conf, graceSession, bind_assoc, bind_assoc, buildInnerPartitions,
    buildPartitions, hs.conf.innerTotal, hs.conf.K, hs.conf.sessionId]
  exact goes_enterGraceBuild hs hstart

theorem goes_configureEnded {s : Session} (hdone : s.sessionDone = true) :
    Goes b (afterConfigure b s >>= nextSession b) (endSession b) := by
  rw [afterConfigure_ended hdone]
  exact goes_ended hdone

theorem idle_configure (s : Session) (p : ConfigurePayload) :
    Reacts b (configure b s.init >>= fun s => afterConfigure b s >>= nextSession b)
      (HostFrame.configure p).reads (configureStep b p) := by
  have htake : ∀ {os : List KOut} {s' : Session}, Sends (accept b s.init p) os s' →
      Takes (configure b s.init) (HostFrame.configure p).reads os s' := by
    intro os s' hsend
    refine Takes.guarded rfl ?_
    rw [if_neg (by decide), if_neg (by decide)]
    exact Takes.intro (rxConfigure_runs p) hsend
  unfold configureStep
  split
  next e hcheck =>
    obtain ⟨s', hsend, hdone⟩ := accept_fails (b := b) (s := s.init) hcheck
    exact Reacts.of_takes (htake hsend) (goes_configureEnded hdone)
  next K outerSlotW hcheck =>
    dsimp only
    rcases checkConfigure_algorithm hcheck with hA | hB
    · obtain ⟨s', hsend, hs', hpairs, hmatched⟩ := accept_sends (b := b) (s := s)
        .algorithmA hA hcheck
      rw [if_neg (by rw [hA]; decide)]
      exact Reacts.of_takes (htake hsend) (goes_linearSession hs' hpairs hmatched)
    · obtain ⟨s', hsend, hs', -, -⟩ := accept_sends (b := b) (s := s)
        .algorithmB hB hcheck
      rw [hB] at hcheck
      obtain ⟨hpos, hle, hmem⟩ := checkConfigure_grace hcheck
      rw [if_pos hB]
      exact Reacts.of_takes (htake hsend) (goes_graceSession ⟨hs', hpos, hle, hmem⟩)

theorem idle_watchdog (s : Session) :
    Reacts b (configure b s.init >>= fun s => afterConfigure b s >>= nextSession b)
      KEvent.watchdog.reads
      (.emit [idleAck 0 (UInt16.ofNat rxCreditTuples) 0 0] (endSession b)) := by
  have htake : Takes (configure b s.init) KEvent.watchdog.reads
      [idleAck 0 (UInt16.ofNat rxCreditTuples) 0 0] s.init.finish :=
    (rxByteGuarded_watchdog b 0).bind (Sends.pure _)
  exact Reacts.of_takes htake (goes_configureEnded rfl)

theorem idle_reset (s : Session) :
    Reacts b (configure b s.init >>= fun s => afterConfigure b s >>= nextSession b)
      HostFrame.reset.reads
      (.emit [idleAck 0 (UInt16.ofNat rxCreditTuples) 0 0] (endSession b)) := by
  have htake : Takes (configure b s.init) HostFrame.reset.reads
      [idleAck 0 (UInt16.ofNat rxCreditTuples) 0 0] { s.init with ht := s.ht.reset }.finish := by
    refine Takes.guardedHeader rfl ?_
    rw [if_pos rfl]
    exact (Sends.emitDebug b _ _ _).bind_quiet ((Sends.put _).bind (Sends.pure _))
  exact Reacts.of_takes htake (goes_configureEnded rfl)

theorem idle_reject (s : Session) (type : MsgType) (count : Nat) (hreset : type ≠ .reset)
    (htype : type ≠ .configure) :
    Reacts b (configure b s.init >>= fun s => afterConfigure b s >>= nextSession b)
      (headerReads type count) (.emit [.error FpgaError.invalidCmd.code] (endSession b)) := by
  have htake : Takes (configure b s.init) (headerReads type count)
      [.error FpgaError.invalidCmd.code] (s.init.fail .invalidCmd) := by
    refine Takes.guardedHeader rfl ?_
    rw [if_neg (mt MsgType.code_inj.mp hreset), if_pos (Or.inl (mt MsgType.code_inj.mp htype))]
    exact (Sends.put _).bind (Sends.pure _)
  exact Reacts.of_takes htake (goes_configureEnded rfl)

/-! ### Algorithm B -/

section Grace

variable {s : Session} {v : PartitionVars} {frame : Nat} {inner outer : List InputTuple}

theorem graceBuild_data (hs : GraceRep s c)
    (hv : PartRep v (innerSide c.innerTotal) c s.ddr2Buf frame inner) {ts : List InputTuple}
    (hlen : ts.length ≤ rxBufTuples) :
    Reacts b (inLoop (partitionBody (innerSide c.innerTotal) s.keytype c.K c.sessionId)
        (graceBuildRest b s)
        (partitionFrame (innerSide c.innerTotal) s.keytype c.K c.sessionId v))
      (HostFrame.data .inner c.keyType ts).reads
      (graceBuildStep b c frame inner (ts.map c.keyType.wire)) := by
  have hframe := partitionFrame_data (hs.distributes hs.innerValid) hv hlen
  unfold graceBuildStep
  split at hframe
  next hfit =>
    obtain ⟨w, htake, hw⟩ := hframe
    rw [if_pos (show partsFit c htMaxRows _ from hfit)]
    exact Reacts.of_takes htake (goes_enterGraceBuild hs hw)
  next hfit =>
    obtain ⟨w, htake, herr⟩ := hframe
    rw [if_neg (show ¬ partsFit c htMaxRows _ from hfit)]
    exact Reacts.of_takes htake (goes_graceBuildEnded herr)

theorem graceProbe_data (hs : GraceRep s c)
    (hinner : Stored (innerSide c.innerTotal) c s.ddr2Buf s.grace.innerCounts inner)
    (hv : PartRep v (outerSide c.outerTotal c.outerSlotW) c s.ddr2Buf frame outer)
    {ts : List InputTuple} (hlen : ts.length ≤ rxBufTuples) :
    Reacts b (inLoop
        (partitionBody (outerSide c.outerTotal c.outerSlotW) s.keytype c.K c.sessionId)
        (graceProbeRest b s)
        (partitionFrame (outerSide c.outerTotal c.outerSlotW) s.keytype c.K c.sessionId v))
      (HostFrame.data .outer c.keyType ts).reads
      (graceProbeStep b c frame inner outer (ts.map c.keyType.wire)) := by
  have hframe := partitionFrame_data (hs.distributes hs.outerValid) hv hlen
  unfold graceProbeStep
  split at hframe
  next hfit =>
    obtain ⟨w, htake, hw⟩ := hframe
    rw [if_pos (show partsFit c (c.outerSlotW / graceWordsPerTuple) _ from hfit)]
    exact Reacts.of_takes htake (goes_enterGraceProbe hs hinner hw)
  next hfit =>
    obtain ⟨w, htake, herr⟩ := hframe
    rw [if_neg (show ¬ partsFit c (c.outerSlotW / graceWordsPerTuple) _ from hfit)]
    exact Reacts.of_takes htake (goes_graceProbeEnded herr)

/-- A frame that ends a distribution phase without storing anything. -/
theorem grace_ends {side : Side} {rest : PartitionVars → KProc Session} {keytype : UInt8}
    {ins : List (Site × Option UInt8)} {os : List KOut}
    (hrest : ∀ w : PartitionVars, w.err ≠ .none → Goes b (rest w) (endSession b))
    (h : ∃ w, Takes (partitionFrame side keytype c.K c.sessionId v) ins os (.inr w) ∧
      w.err ≠ .none) :
    Reacts b (inLoop (partitionBody side keytype c.K c.sessionId) rest
      (partitionFrame side keytype c.K c.sessionId v)) ins (.emit os (endSession b)) := by
  obtain ⟨w, htake, herr⟩ := h
  exact Reacts.of_takes htake (hrest w herr)

end Grace

end Frames

/-! ## The machine -/

section Machine

variable {b : Build}

/-- A frame without payload is read as its header. -/
theorem reads_of_header {f : HostFrame} (h : f.bytes.length = 3) :
    f = .reset ∨ ∃ msg w, f = .data msg w [] := by
  cases f with
  | configure p => simp [HostFrame.bytes, TupleSerializer.serializeConfigure,
      TupleSerializer.putU8, TupleSerializer.putU16, TupleSerializer.putU32,
      LittleEndian.bytes16, LittleEndian.bytes32] at h
  | reset => exact Or.inl rfl
  | data msg w ts =>
    refine Or.inr ⟨msg, w, ?_⟩
    cases ts with
    | nil => rfl
    | cons t ts =>
      rw [HostFrame.bytes_data] at h
      cases w <;> simp [hostHeader, TupleSerializer.putU8, TupleSerializer.putU16,
        LittleEndian.bytes16, length_putTuple, KeyType.tupleBytes] at h

theorem reject_eq_some {f : HostFrame} {e : FpgaError} {r : Reaction}
    (h : reject b f e = some r) :
    f.bytes.length = 3 ∧ r = .emit [.error e.code] (endSession b) := by
  unfold reject at h
  split at h
  next hlen => exact ⟨hlen, (Option.some.inj h).symm⟩
  next => cases h

theorem dataRows_eq_some {c : Conf} {w : KeyType} {ts rows : List InputTuple}
    (h : dataRows c w ts = some rows) :
    w = c.keyType ∧ ts.length ≤ rxBufTuples ∧ rows = ts.map c.keyType.wire := by
  unfold dataRows at h
  split at h
  next hrows =>
    obtain ⟨rfl, hlen⟩ := hrows
    exact ⟨rfl, hlen, (Option.some.inj h).symm⟩
  next => cases h

theorem reacts_idle {p : KProc Session} {e : KEvent} {r : Reaction} (hp : Rep b .idle p)
    (h : step b .idle e = some r) : Reacts b p e.reads r := by
  obtain ⟨s, rfl⟩ := hp
  match e, h with
  | .watchdog, h =>
    cases h
    exact idle_watchdog s
  | .frame .reset, h =>
    cases h
    exact idle_reset s
  | .frame (.configure p), h =>
    cases h
    exact idle_configure s p
  | .frame (.data msg w ts), h =>
    obtain ⟨hlen, rfl⟩ := reject_eq_some h
    obtain rfl : ts = [] := by simpa using reads_of_header hlen
    have hread := idle_reject (b := b) s msg.type 0 (by cases msg <;> decide)
      (by cases msg <;> decide)
    simpa [KEvent.reads, HostFrame.reads] using hread

theorem reacts_build {c : Conf} {frame pending : Nat} {inner : List InputTuple}
    {p : KProc Session} {e : KEvent} {r : Reaction} (hp : Rep b (.build c frame pending inner) p)
    (h : step b (.build c frame pending inner) e = some r) : Reacts b p e.reads r := by
  obtain ⟨v, hv, rfl⟩ := hp
  match e, h with
  | .watchdog, h =>
    cases h
    exact build_watchdog hv
  | .frame .reset, h =>
    cases h
    exact build_reset hv
  | .frame (.data .inner w ts), h =>
    obtain ⟨rows, hrows, rfl⟩ := Option.map_eq_some_iff.mp h
    obtain ⟨rfl, hlen, rfl⟩ := dataRows_eq_some hrows
    exact build_data hv hlen
  | .frame (.data .outer w ts), h =>
    obtain ⟨hlen, rfl⟩ := reject_eq_some h
    obtain rfl : ts = [] := by simpa using reads_of_header hlen
    have hread := build_reject (b := b) v .outerData 0 (by decide) (by decide)
    simpa [KEvent.reads, HostFrame.reads, DataMsg.type] using hread
  | .frame (.configure p), h =>
    obtain ⟨hlen, rfl⟩ := reject_eq_some h
    simpa using reads_of_header hlen

theorem reacts_probe {c : Conf} {frame pending : Nat} {inner seen : List InputTuple}
    {buf : List ResultPair} {p : KProc Session} {e : KEvent} {r : Reaction}
    (hp : Rep b (.probe c frame pending inner seen buf) p)
    (h : step b (.probe c frame pending inner seen buf) e = some r) : Reacts b p e.reads r := by
  obtain ⟨v, n, hv, rfl⟩ := hp
  match e, h with
  | .watchdog, h =>
    cases h
    exact probe_watchdog hv
  | .frame .reset, h =>
    cases h
    exact probe_reset hv
  | .frame (.data .outer w ts), h =>
    obtain ⟨rows, hrows, rfl⟩ := Option.map_eq_some_iff.mp h
    obtain ⟨rfl, hlen, rfl⟩ := dataRows_eq_some hrows
    exact probe_data hv hlen
  | .frame (.data .inner w ts), h =>
    obtain ⟨hlen, rfl⟩ := reject_eq_some h
    obtain rfl : ts = [] := by simpa using reads_of_header hlen
    have hread := probe_reject (b := b) (n := n) v .innerData 0 (by decide) (by decide)
    simpa [KEvent.reads, HostFrame.reads, DataMsg.type] using hread
  | .frame (.configure p), h =>
    obtain ⟨hlen, rfl⟩ := reject_eq_some h
    simpa using reads_of_header hlen

theorem reacts_graceBuild {c : Conf} {frame : Nat} {inner : List InputTuple}
    {p : KProc Session} {e : KEvent} {r : Reaction} (hp : Rep b (.graceBuild c frame inner) p)
    (h : step b (.graceBuild c frame inner) e = some r) : Reacts b p e.reads r := by
  obtain ⟨s, v, hs, hv, rfl⟩ := hp
  match e, h with
  | .frame .reset, h =>
    cases h
    exact grace_ends (fun _ => goes_graceBuildEnded) (partitionFrame_reset _ _ c v)
  | .frame (.data .inner w ts), h =>
    obtain ⟨rows, hrows, rfl⟩ := Option.map_eq_some_iff.mp h
    obtain ⟨rfl, hlen, rfl⟩ := dataRows_eq_some hrows
    exact graceBuild_data hs hv hlen
  | .frame (.data .outer w ts), h =>
    obtain ⟨hlen, rfl⟩ := reject_eq_some h
    obtain rfl : ts = [] := by simpa using reads_of_header hlen
    have hread := grace_ends (fun _ => goes_graceBuildEnded (b := b) (s := s))
      (partitionFrame_reject (innerSide c.innerTotal) s.keytype c v .outerData 0
        (by decide) (by simp [innerSide, DataMsg.type]))
    simpa [KEvent.reads, HostFrame.reads, DataMsg.type] using hread
  | .frame (.configure p), h =>
    obtain ⟨hlen, rfl⟩ := reject_eq_some h
    simpa using reads_of_header hlen

theorem reacts_graceProbe {c : Conf} {frame : Nat} {inner outer : List InputTuple}
    {p : KProc Session} {e : KEvent} {r : Reaction}
    (hp : Rep b (.graceProbe c frame inner outer) p)
    (h : step b (.graceProbe c frame inner outer) e = some r) : Reacts b p e.reads r := by
  obtain ⟨s, v, hs, hinner, hv, rfl⟩ := hp
  match e, h with
  | .frame .reset, h =>
    cases h
    exact grace_ends (fun _ => goes_graceProbeEnded) (partitionFrame_reset _ _ c v)
  | .frame (.data .outer w ts), h =>
    obtain ⟨rows, hrows, rfl⟩ := Option.map_eq_some_iff.mp h
    obtain ⟨rfl, hlen, rfl⟩ := dataRows_eq_some hrows
    exact graceProbe_data hs hinner hv hlen
  | .frame (.data .inner w ts), h =>
    obtain ⟨hlen, rfl⟩ := reject_eq_some h
    obtain rfl : ts = [] := by simpa using reads_of_header hlen
    have hread := grace_ends (fun _ => goes_graceProbeEnded (b := b) (s := s))
      (partitionFrame_reject (outerSide c.outerTotal c.outerSlotW) s.keytype c v
        .innerData 0 (by decide) (by simp [outerSide, DataMsg.type]))
    simpa [KEvent.reads, HostFrame.reads, DataMsg.type] using hread
  | .frame (.configure p), h =>
    obtain ⟨hlen, rfl⟩ := reject_eq_some h
    simpa using reads_of_header hlen

/-- **Every event that the machine accepts is taken by the kernel as the machine says.** -/
theorem reacts {st : KState} {p : KProc Session} {e : KEvent} {r : Reaction} (hp : Rep b st p)
    (h : step b st e = some r) : Reacts b p e.reads r := by
  cases st with
  | idle => exact reacts_idle hp h
  | build => exact reacts_build hp h
  | probe => exact reacts_probe hp h
  | graceBuild => exact reacts_graceBuild hp h
  | graceProbe => exact reacts_graceProbe hp h
  | ended => cases e <;> cases h

theorem Rep.waiting {st : KState} {p : KProc Session} (hp : Rep b st p) : p.Waiting := by
  cases st with
  | idle =>
    obtain ⟨s, rfl⟩ := hp
    trivial
  | build =>
    obtain ⟨v, -, rfl⟩ := hp
    trivial
  | probe =>
    obtain ⟨v, n, -, rfl⟩ := hp
    trivial
  | graceBuild =>
    obtain ⟨s, v, -, -, rfl⟩ := hp
    trivial
  | graceProbe =>
    obtain ⟨s, v, -, -, -, rfl⟩ := hp
    trivial
  | ended =>
    obtain ⟨s, rfl⟩ := hp
    trivial

/-- **The kernel as an event machine.** -/
def kernelMachine (b : Build) : Machine Site UInt8 TxFrame Session KState KEvent KOut where
  vals := KEvent.vals
  obs := TxFrame.obs
  Rep := Rep b
  label := fun _ e => e.reads
  step := step b
  label_vals := fun _ => KEvent.map_snd_reads _
  waiting := Rep.waiting
  sim := by
    intro st p e os st' hp h
    obtain ⟨mid, hread, outs, q, hsend, hobs, hq⟩ := reacts hp h
    exact ⟨mid, outs, q, hread, hsend, hobs, hq⟩

/-- The kernel starts by waiting for CONFIGURE. -/
theorem kernel_enters (b : Build) (s : Session) :
    (kernelMachine b).Enters .idle (hashJoinKernel b s) :=
  goes_newSession b _

end Machine

end FpgaHashJoin
