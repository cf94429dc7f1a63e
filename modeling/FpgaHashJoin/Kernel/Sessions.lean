import FpgaHashJoin.Kernel.Simulation

/-!
# Whole sessions

A session is fed to the kernel as a CONFIGURE frame, INNER_DATA frames and OUTER_DATA frames;
`SessionInput` carries the proofs that the frames fit each other. From what the machine does
with one frame the module derives what it does with all of them, for any split of the rows
into frames.
-/

namespace FpgaHashJoin

open Process EquiJoin GraceHashEngine KState

/-- The frames of a session. -/
structure SessionInput where
  config : ConfigurePayload
  keyType : KeyType
  innerFrames : List (List InputTuple)
  outerFrames : List (List InputTuple)
  keyType_eq : config.keyType = keyType.code
  innerCount_eq : config.innerCount.toNat = innerFrames.flatten.length
  innerSizes : ∀ f ∈ innerFrames, 1 ≤ f.length ∧ f.length ≤ rxBufTuples
  outerSizes : ∀ f ∈ outerFrames, 1 ≤ f.length ∧ f.length ≤ rxBufTuples
  innerKeys : ∀ t ∈ innerFrames.flatten, keyType.InRange t.key
  outerKeys : ∀ t ∈ outerFrames.flatten, keyType.InRange t.key

namespace SessionInput

variable (x : SessionInput)

def inner : List InputTuple := x.innerFrames.flatten

def outer : List InputTuple := x.outerFrames.flatten

/-- The frames as the host sends them. -/
def frames : List HostFrame :=
  .configure x.config :: (x.innerFrames.map (.data .inner x.keyType) ++
    x.outerFrames.map (.data .outer x.keyType))

end SessionInput

/-- The bytes of a list of frames, as answers of the kernel's reads. -/
def answers (fs : List HostFrame) : List (Option UInt8) := fs.flatMap fun f => f.bytes.map some

/-- The pairs of the RESULT frames. -/
def resultPairs (os : List KOut) : List ResultPair :=
  os.flatMap fun
    | .results pairs => pairs
    | _ => []

/-- Frames that neither end nor abort a session. RESULT frames have at least one and at most
`cap` pairs. -/
def KOut.Progress (cap : Nat) : KOut → Prop
  | .ack _ => True
  | .results pairs => 1 ≤ pairs.length ∧ pairs.length ≤ cap
  | _ => False

@[simp] theorem resultPairs_nil : resultPairs [] = [] := rfl

@[simp] theorem resultPairs_append (os os' : List KOut) :
    resultPairs (os ++ os') = resultPairs os ++ resultPairs os' :=
  List.flatMap_append

theorem resultPairs_map (fs : List (List ResultPair)) :
    resultPairs (fs.map .results) = fs.flatten := by
  simp [resultPairs, List.flatMap_map, List.flatMap_id']

@[simp] theorem resultPairs_dataAck (c : Conf) (phase : Phase) (total processed matched : Nat) :
    resultPairs [dataAck c phase total processed matched] = [] := rfl

theorem resultPairs_of_acks {os : List KOut} (h : ∀ o ∈ os, ∃ a, o = .ack a) :
    resultPairs os = [] := by
  refine List.flatMap_eq_nil_iff.mpr fun o ho => ?_
  obtain ⟨a, rfl⟩ := h o ho
  rfl

/-! ## The machine over a list of frames -/

section Plays

variable {b : Build} {r : Reaction} {fs gs : List HostFrame} {os : List KOut} {st : KState}

/-- After the reaction `r` the machine takes the frames. -/
def Plays (b : Build) (r : Reaction) (fs : List HostFrame) (os : List KOut) (st : KState) : Prop :=
  ∃ l os', (kernelMachine b).Path r.2 (fs.map .frame) l os' st ∧ os = r.1 ++ os'

theorem Plays.nil (b : Build) (r : Reaction) : Plays b r [] r.1 r.2 :=
  ⟨[], [], .nil _, by simp⟩

theorem Plays.emit (h : Plays b r fs os st) (xs : List KOut) :
    Plays b (.emit xs r) fs (xs ++ os) st := by
  obtain ⟨l, os', hpath, rfl⟩ := h
  exact ⟨l, os', hpath, by simp [Reaction.emit]⟩

theorem Plays.cons {st₀ : KState} {f : HostFrame} (hstep : step b st₀ (.frame f) = some r)
    (h : Plays b r fs os st) : Plays b ([], st₀) (f :: fs) os st := by
  obtain ⟨l, os', hpath, rfl⟩ := h
  exact ⟨_, _, .cons hstep hpath, rfl⟩

theorem vals_frames (fs : List HostFrame) :
    (fs.map KEvent.frame).flatMap KEvent.vals = answers fs := by
  simp [answers, List.flatMap_map, KEvent.vals]

/-- The kernel follows the machine. -/
theorem Plays.settles {b : Build} (h : Plays b ([], .idle) fs os st) (s : Session) :
    ∃ outs q, Settles (hashJoinKernel b s) (answers fs) outs q ∧
      outs.flatMap TxFrame.obs = os ∧ Rep b st q := by
  obtain ⟨l, os', hpath, rfl⟩ := h
  rw [← vals_frames]
  exact hpath.settles (kernel_enters b s)

end Plays

/-- A frame of a phase: it has the session's key width, and its keys survive the wire. -/
structure Carried (w : KeyType) (f : List InputTuple) : Prop where
  pos : 1 ≤ f.length
  len : f.length ≤ rxBufTuples
  wire : f.map w.wire = f

theorem dataRows_carried {c : Conf} {f : List InputTuple} (h : Carried c.keyType f) :
    dataRows c c.keyType f = some f := by
  rw [dataRows, if_pos ⟨rfl, h.len⟩, h.wire]

/-! ## Algorithm A: build phase -/

section Build

variable {b : Build} {c : Conf} {fs : List (List InputTuple)}

/-- The frames that the host may see while the build phase goes on. -/
def IsBuildAck (o : KOut) : Prop := ∃ a : StatusPayload, o = .ack a ∧ a.phase = Phase.building.code

/-- One frame of the build phase whose rows fit. -/
theorem build_frame (frame pending : Nat) {inner f : List InputTuple}
    (hf : Carried c.keyType f) (hmore : frame ≤ htMaxRows + 1 ∧ inner.length < c.innerTotal)
    (hfit : LinearHashTable.fits (inner ++ f)) :
    ∃ acks pending', (∀ o ∈ acks, IsBuildAck o) ∧ ∀ {es os st},
      Plays b (enterBuild b c (frame + 1) pending' (inner ++ f)) es os st →
      Plays b (enterBuild b c frame pending inner) (.data .inner c.keyType f :: es)
        (acks ++ os) st := by
  have hstep : step b (.build c frame pending inner) (.frame (.data .inner c.keyType f)) =
      some (buildStep b c frame pending inner f) := by
    simp [step, dataRows_carried hf]
  rw [enterBuild, if_pos hmore]
  by_cases hack : ackBatchFrames ≤ pending + 1 ∨ c.innerTotal ≤ (inner ++ f).length
  · refine ⟨[dataAck c .building c.innerTotal (inner ++ f).length 0], 0, ?_, ?_⟩
    · intro o ho
      rw [List.mem_singleton.mp ho]
      exact ⟨_, rfl, rfl⟩
    · intro es os st h
      refine Plays.cons hstep ?_
      simp only [buildStep, if_pos hfit, if_pos hack]
      exact h.emit _
  · refine ⟨[], pending + 1, by simp, ?_⟩
    intro es os st h
    refine Plays.cons hstep ?_
    simp only [buildStep, if_pos hfit, if_neg hack]
    exact h

/-- **The build phase, when all rows fit.** -/
theorem build_plays (frame pending : Nat) (inner : List InputTuple)
    (hfs : ∀ f ∈ fs, Carried c.keyType f) (hcap : c.innerTotal ≤ htMaxRows)
    (hframe : frame ≤ inner.length) (htotal : (inner ++ fs.flatten).length = c.innerTotal)
    (hfits : LinearHashTable.fits (inner ++ fs.flatten)) :
    ∃ acks, (∀ o ∈ acks, IsBuildAck o) ∧ ∀ {es os st},
      Plays b (enterProbe b c 0 0 (inner ++ fs.flatten) [] []) es os st →
      Plays b (enterBuild b c frame pending inner)
        (fs.map (.data .inner c.keyType) ++ es) (acks ++ os) st := by
  induction fs generalizing frame pending inner with
  | nil =>
    refine ⟨[], by simp, ?_⟩
    intro es os st h
    rw [List.flatten_nil, List.append_nil] at htotal h
    have hend : ¬ (frame ≤ htMaxRows + 1 ∧ inner.length < c.innerTotal) := by omega
    rw [enterBuild, if_neg hend]
    exact h
  | cons f fs ih =>
    have hf := hfs f List.mem_cons_self
    have hpos := hf.pos
    have hrows : inner ++ (f :: fs).flatten = inner ++ f ++ fs.flatten := by simp
    rw [hrows] at htotal hfits ⊢
    have hlen : inner.length + f.length + fs.flatten.length = c.innerTotal := by
      rw [← List.length_append, ← List.length_append]
      exact htotal
    have hfit : LinearHashTable.fits (inner ++ f) :=
      LinearHashTable.fits_sublist hfits (List.sublist_append_left _ _)
    obtain ⟨acks, pending', hacks, hframe₁⟩ := build_frame (b := b) frame pending hf
      (by omega) hfit
    obtain ⟨acks', hacks', hrest⟩ := ih (frame + 1) pending' (inner ++ f)
      (fun g hg => hfs g (List.mem_cons_of_mem _ hg))
      (by rw [List.length_append]; omega) htotal hfits
    refine ⟨acks ++ acks', ?_, ?_⟩
    · intro o ho
      rcases List.mem_append.mp ho with ho | ho
      · exact hacks o ho
      · exact hacks' o ho
    · intro es os st h
      rw [List.append_assoc]
      exact hframe₁ (hrest h)

/-- **The build phase, when the rows do not fit.** -/
theorem build_overflows (frame pending : Nat) (inner : List InputTuple)
    (hfs : ∀ f ∈ fs, Carried c.keyType f) (hcap : c.innerTotal ≤ htMaxRows)
    (hframe : frame ≤ inner.length) (htotal : (inner ++ fs.flatten).length = c.innerTotal)
    (hinner : LinearHashTable.fits inner)
    (hfits : ¬ LinearHashTable.fits (inner ++ fs.flatten)) :
    ∃ done todo acks, fs = done ++ todo ∧ (∀ o ∈ acks, IsBuildAck o) ∧
      Plays b (enterBuild b c frame pending inner) (done.map (.data .inner c.keyType))
        (acks ++ [.error FpgaError.overflow.code]) (endSession b).2 := by
  induction fs generalizing frame pending inner with
  | nil =>
    rw [List.flatten_nil, List.append_nil] at hfits
    exact absurd hinner hfits
  | cons f fs ih =>
    have hf := hfs f List.mem_cons_self
    have hpos := hf.pos
    have hrows : inner ++ (f :: fs).flatten = inner ++ f ++ fs.flatten := by simp
    rw [hrows] at htotal hfits
    have hlen : inner.length + f.length + fs.flatten.length = c.innerTotal := by
      rw [← List.length_append, ← List.length_append]
      exact htotal
    have hmore : frame ≤ htMaxRows + 1 ∧ inner.length < c.innerTotal := by omega
    by_cases hfit : LinearHashTable.fits (inner ++ f)
    · obtain ⟨acks, pending', hacks, hframe₁⟩ := build_frame (b := b) frame pending hf
        hmore hfit
      obtain ⟨done, todo, acks', rfl, hacks', hplay⟩ := ih (frame + 1) pending' (inner ++ f)
        (fun g hg => hfs g (List.mem_cons_of_mem _ hg))
        (by rw [List.length_append]; omega) htotal hfit hfits
      refine ⟨f :: done, todo, acks ++ acks', rfl, ?_, ?_⟩
      · intro o ho
        rcases List.mem_append.mp ho with ho | ho
        · exact hacks o ho
        · exact hacks' o ho
      · rw [List.append_assoc]
        exact hframe₁ hplay
    · refine ⟨[f], fs, [], rfl, by simp, ?_⟩
      have hstep : step b (.build c frame pending inner) (.frame (.data .inner c.keyType f)) =
          some (buildStep b c frame pending inner f) := by
        simp [step, dataRows_carried hf]
      rw [enterBuild, if_pos hmore]
      refine Plays.cons hstep ?_
      simp only [buildStep, if_neg hfit]
      exact (Plays.nil b (endSession b)).emit [_]

end Build

/-! ## Algorithm A: probe phase -/

section Probe

variable {b : Build} {c : Conf}

theorem progress_push {buf xs : List ResultPair} (hbuf : buf.length < resultFlushPairs) :
    ∀ o ∈ (Batching.push resultFlushPairs buf xs).1.map KOut.results,
      o.Progress resultFlushPairs := by
  intro o ho
  obtain ⟨f, hf, rfl⟩ := List.mem_map.mp ho
  have hlen := Batching.push_batch_length buf xs hbuf f hf
  rw [resultFlushPairs_eq] at hlen
  simp only [KOut.Progress, resultFlushPairs_eq]
  omega

/-- One frame of the probe phase that does not bring the last row. -/
theorem probe_frame (inner : List InputTuple) (frame pending : Nat) {seen f : List InputTuple}
    {buf : List ResultPair}
    (hf : Carried c.keyType f) (hframe : frame < maxProbeFrames)
    (hbuf : buf.length < resultFlushPairs) (hmore : (seen ++ f).length < c.outerTotal) :
    ∃ pre pending' buf', (∀ o ∈ pre, o.Progress resultFlushPairs) ∧
      buf'.length < resultFlushPairs ∧ resultPairs pre ++ buf' = buf ++ join inner f ∧
      ∀ {es os st}, Plays b (enterProbe b c (frame + 1) pending' inner (seen ++ f) buf') es os st →
        Plays b (enterProbe b c frame pending inner seen buf) (.data .outer c.keyType f :: es)
          (pre ++ os) st := by
  have hpos := hf.pos
  rw [List.length_append] at hmore
  have hstep : step b (.probe c frame pending inner seen buf)
      (.frame (.data .outer c.keyType f)) =
      some (probeStep b c frame pending inner seen buf f) := by
    simp [step, dataRows_carried hf]
  have htake : f.take (c.outerTotal - seen.length) = f := List.take_of_length_le (by omega)
  have hcont : ¬ (f.length = 0 ∨ c.outerTotal ≤ (seen ++ f).length) := by
    rw [List.length_append]
    omega
  have hpairs : resultPairs ((Batching.push resultFlushPairs buf (join inner f)).1.map .results) ++
      (Batching.push resultFlushPairs buf (join inner f)).2 = buf ++ join inner f := by
    rw [resultPairs_map, Batching.push_flatten]
  rw [enterProbe, if_pos ⟨hframe, by omega⟩]
  by_cases hack : ackBatchFrames ≤ pending + 1
  · refine ⟨(Batching.push resultFlushPairs buf (join inner f)).1.map .results ++
      [dataAck c .probing c.outerTotal (seen ++ f).length (join inner (seen ++ f)).length], 0,
      (Batching.push resultFlushPairs buf (join inner f)).2, ?_,
      Batching.push_rest_lt _ _ hbuf, ?_, ?_⟩
    · intro o ho
      rcases List.mem_append.mp ho with ho | ho
      · exact progress_push hbuf o ho
      · rw [List.mem_singleton.mp ho]
        trivial
    · rw [resultPairs_append, resultPairs_dataAck,
        List.append_nil, hpairs]
    · intro es os st h
      refine Plays.cons hstep ?_
      simp only [probeStep, htake, if_neg hcont, if_pos hack, Reaction.emit_emit]
      exact h.emit _
  · refine ⟨(Batching.push resultFlushPairs buf (join inner f)).1.map .results, pending + 1,
      (Batching.push resultFlushPairs buf (join inner f)).2, progress_push hbuf,
      Batching.push_rest_lt _ _ hbuf, hpairs, ?_⟩
    intro es os st h
    refine Plays.cons hstep ?_
    simp only [probeStep, htake, if_neg hcont, if_neg hack]
    exact h.emit _

/-- **The probe phase up to a frame that is not the last one.** -/
theorem probe_plays (inner : List InputTuple) {fs : List (List InputTuple)} (frame pending : Nat)
    (seen : List InputTuple) (buf : List ResultPair) (hfs : ∀ f ∈ fs, Carried c.keyType f)
    (hframe : frame + fs.length ≤ maxProbeFrames) (hbuf : buf.length < resultFlushPairs)
    (hmore : (seen ++ fs.flatten).length < c.outerTotal) :
    ∃ pre pending' buf', (∀ o ∈ pre, o.Progress resultFlushPairs) ∧
      buf'.length < resultFlushPairs ∧ resultPairs pre ++ buf' = buf ++ join inner fs.flatten ∧
      ∀ {es os st},
        Plays b (enterProbe b c (frame + fs.length) pending' inner (seen ++ fs.flatten) buf')
          es os st →
        Plays b (enterProbe b c frame pending inner seen buf)
          (fs.map (.data .outer c.keyType) ++ es) (pre ++ os) st := by
  induction fs generalizing frame pending seen buf with
  | nil =>
    refine ⟨[], pending, buf, by simp, hbuf, by simp, ?_⟩
    intro es os st h
    simpa using h
  | cons f fs ih =>
    have hrows : seen ++ (f :: fs).flatten = seen ++ f ++ fs.flatten := by simp
    rw [hrows] at hmore ⊢
    rw [List.length_cons] at hframe
    have hless : (seen ++ f).length < c.outerTotal := by
      rw [List.length_append] at hmore
      omega
    obtain ⟨pre, pending', buf', hpre, hbuf', hpairs, hfirst⟩ := probe_frame (b := b)
      inner frame pending (hfs f List.mem_cons_self)
      (by omega) hbuf hless
    obtain ⟨pre', pending'', buf'', hpre', hbuf'', hpairs', hrest⟩ := ih (frame + 1)
      pending' (seen ++ f) buf' (fun g hg => hfs g (List.mem_cons_of_mem _ hg)) (by omega) hbuf' hmore
    refine ⟨pre ++ pre', pending'', buf'', ?_, hbuf'', ?_, ?_⟩
    · intro o ho
      rcases List.mem_append.mp ho with ho | ho
      · exact hpre o ho
      · exact hpre' o ho
    · rw [resultPairs_append, List.append_assoc, hpairs', ← List.append_assoc, hpairs,
        List.flatten_cons, join_append, List.append_assoc]
    · intro es os st h
      rw [List.append_assoc]
      refine hfirst (hrest ?_)
      rw [List.length_cons, ← Nat.add_assoc, Nat.add_right_comm] at h
      exact h

/-- The frame that brings the last row. -/
theorem probe_last (inner : List InputTuple) (frame pending : Nat) (seen f : List InputTuple)
    (buf : List ResultPair)
    (hf : Carried c.keyType f) (hframe : frame < maxProbeFrames)
    (hbuf : buf.length < resultFlushPairs) (hseen : seen.length < c.outerTotal)
    (hlast : c.outerTotal ≤ (seen ++ f).length) :
    ∃ pre, (∀ o ∈ pre, o.Progress resultFlushPairs) ∧
      resultPairs pre = buf ++ join inner (f.take (c.outerTotal - seen.length)) ∧
      Plays b (enterProbe b c frame pending inner seen buf) [.data .outer c.keyType f]
        (pre ++ [.timing, doneStatus c c.outerTotal
          (join inner ((seen ++ f).take c.outerTotal)).length]) (endSession b).2 := by
  rw [List.length_append] at hlast
  have hstep : step b (.probe c frame pending inner seen buf)
      (.frame (.data .outer c.keyType f)) =
      some (probeStep b c frame pending inner seen buf f) := by
    simp [step, dataRows_carried hf]
  have htake : (seen ++ f).take c.outerTotal = seen ++ f.take (c.outerTotal - seen.length) := by
    rw [List.take_append, List.take_of_length_le hseen.le]
  have hlen : (seen ++ f.take (c.outerTotal - seen.length)).length = c.outerTotal := by
    rw [List.length_append, List.length_take]
    omega
  have hbuf' := Batching.push_rest_lt buf (join inner (f.take (c.outerTotal - seen.length))) hbuf
  refine ⟨(Batching.push resultFlushPairs buf
      (join inner (f.take (c.outerTotal - seen.length)))).1.map .results ++
    (Batching.flush (Batching.push resultFlushPairs buf
      (join inner (f.take (c.outerTotal - seen.length)))).2).map .results, ?_, ?_, ?_⟩
  · intro o ho
    rcases List.mem_append.mp ho with ho | ho
    · exact progress_push hbuf o ho
    · obtain ⟨g, hg, rfl⟩ := List.mem_map.mp ho
      unfold Batching.flush at hg
      split at hg
      next => simp at hg
      next hne =>
        rw [List.mem_singleton.mp hg]
        exact ⟨List.length_pos_iff.mpr hne, hbuf'.le⟩
  · rw [resultPairs_append, resultPairs_map, resultPairs_map, Batching.flatten_flush,
      Batching.push_flatten]
  · rw [enterProbe, if_pos ⟨hframe, hseen⟩]
    refine Plays.cons hstep ?_
    rw [htake]
    simp only [probeStep, hlen, le_refl, or_true, if_true, Reaction.emit_emit]
    have hend := (Plays.nil b (endSession b)).emit
      ((Batching.push resultFlushPairs buf
        (join inner (f.take (c.outerTotal - seen.length)))).1.map .results ++
      ((Batching.flush (Batching.push resultFlushPairs buf
        (join inner (f.take (c.outerTotal - seen.length)))).2).map .results ++
      [.timing, doneStatus c c.outerTotal
        (join inner (seen ++ f.take (c.outerTotal - seen.length))).length]))
    simpa [endSession] using hend

end Probe

/-! ## Algorithm A: whole sessions -/

namespace SessionInput

variable (x : SessionInput)

/-- The configuration of the session. -/
def conf (K outerSlotW : Nat) : Conf where
  sessionId := x.config.sessionId
  keyType := x.keyType
  innerTotal := x.config.innerCount.toNat
  outerTotal := x.config.outerCount.toNat
  K := K
  outerSlotW := outerSlotW

theorem innerFrames_carried : ∀ f ∈ x.innerFrames, Carried x.keyType f := by
  intro f hf
  obtain ⟨hpos, hlen⟩ := x.innerSizes f hf
  refine ⟨hpos, hlen, KeyType.map_wire_eq fun t ht => x.innerKeys t ?_⟩
  exact List.mem_flatten.mpr ⟨f, hf, ht⟩

theorem outerFrames_carried : ∀ f ∈ x.outerFrames, Carried x.keyType f := by
  intro f hf
  obtain ⟨hpos, hlen⟩ := x.outerSizes f hf
  refine ⟨hpos, hlen, KeyType.map_wire_eq fun t ht => x.outerKeys t ?_⟩
  exact List.mem_flatten.mpr ⟨f, hf, ht⟩

/-- The ACK of CONFIGURE. -/
def configureAck : KOut :=
  .ack
    { phase := Phase.building.code
      sessionId := x.config.sessionId
      credit := UInt16.ofNat rxCreditTuples }

/-- The kernel accepts CONFIGURE. -/
theorem plays_configure {b : Build} {K outerSlotW : Nat}
    (hcheck : checkConfigure x.config.algorithm x.config.innerCount.toNat x.config.outerCount.toNat =
      .ok (K, outerSlotW)) {fs : List HostFrame} {os : List KOut} {st : KState}
    (h : Plays b (if x.config.algorithm = AlgorithmType.algorithmB.code then
      enterGraceBuild b (x.conf K outerSlotW) 0 [] else enterBuild b (x.conf K outerSlotW) 0 0 [])
      fs os st) :
    Plays b ([], .idle) (.configure x.config :: fs) (x.configureAck :: os) st := by
  have hkey : KeyType.ofCode x.config.keyType = x.keyType := by
    rw [x.keyType_eq, KeyType.ofCode_code]
  refine Plays.cons rfl ?_
  simp only [configureStep, hcheck, hkey]
  exact h.emit [_]

theorem checkConfigure_linear (halg : x.config.algorithm = AlgorithmType.algorithmA.code)
    (hcap : x.inner.length ≤ htMaxRows) :
    checkConfigure x.config.algorithm x.config.innerCount.toNat x.config.outerCount.toNat = .ok (1, 0) := by
  have hcount : x.config.innerCount.toNat = x.inner.length := x.innerCount_eq
  rw [checkConfigure, if_pos halg, if_neg (by omega)]

end SessionInput

section Linear

variable {b : Build} {x : SessionInput}

/-- CONFIGURE and the inner frames of a session whose inner rows fit. -/
theorem linear_build (halg : x.config.algorithm = AlgorithmType.algorithmA.code)
    (hcap : x.inner.length ≤ htMaxRows) (hfits : LinearHashTable.fits x.inner) :
    ∃ acks, (∀ o ∈ acks, IsBuildAck o) ∧ ∀ {es os st},
      Plays b (enterProbe b (x.conf 1 0) 0 0 x.inner [] []) es os st →
      Plays b ([], .idle)
        (.configure x.config :: (x.innerFrames.map (.data .inner x.keyType) ++ es))
        (acks ++ os) st := by
  have hcount : x.config.innerCount.toNat = x.inner.length := x.innerCount_eq
  obtain ⟨acks, hacks, hbuild⟩ := build_plays (b := b) (c := x.conf 1 0) 0 0 []
    x.innerFrames_carried (hcount.le.trans hcap) le_rfl hcount.symm hfits
  refine ⟨x.configureAck :: acks, ?_, ?_⟩
  · intro o ho
    rcases List.mem_cons.mp ho with rfl | ho
    · exact ⟨_, rfl, rfl⟩
    · exact hacks o ho
  · intro es os st h
    refine x.plays_configure (x.checkConfigure_linear halg hcap) ?_
    rw [if_neg (by rw [halg]; decide)]
    exact hbuild h

/-- CONFIGURE and the inner frames of a session whose inner rows do not fit. -/
theorem linear_overflow (halg : x.config.algorithm = AlgorithmType.algorithmA.code)
    (hcap : x.inner.length ≤ htMaxRows) (hfits : ¬ LinearHashTable.fits x.inner) :
    ∃ done todo acks, x.innerFrames = done ++ todo ∧ (∀ o ∈ acks, IsBuildAck o) ∧
      Plays b ([], .idle) (.configure x.config :: done.map (.data .inner x.keyType))
        (acks ++ [.error FpgaError.overflow.code]) (endSession b).2 := by
  have hcount : x.config.innerCount.toNat = x.inner.length := x.innerCount_eq
  obtain ⟨done, todo, acks, hsplit, hacks, hplay⟩ := build_overflows (b := b) (c := x.conf 1 0)
    0 0 [] x.innerFrames_carried (hcount.le.trans hcap) le_rfl
    hcount.symm LinearHashTable.fits_nil hfits
  refine ⟨done, todo, x.configureAck :: acks, hsplit, ?_, ?_⟩
  · intro o ho
    rcases List.mem_cons.mp ho with rfl | ho
    · exact ⟨_, rfl, rfl⟩
    · exact hacks o ho
  · refine x.plays_configure (x.checkConfigure_linear halg hcap) ?_
    rw [if_neg (by rw [halg]; decide)]
    exact hplay

theorem IsBuildAck.progress {o : KOut} (h : IsBuildAck o) (cap : Nat) : o.Progress cap := by
  obtain ⟨a, rfl, -⟩ := h
  trivial

theorem resultPairs_of_buildAcks {os : List KOut} (h : ∀ o ∈ os, IsBuildAck o) :
    resultPairs os = [] := by
  refine resultPairs_of_acks fun o ho => ?_
  obtain ⟨a, rfl, -⟩ := h o ho
  exact ⟨a, rfl⟩

/-- The outer frames up to the one that brings the last row. -/
theorem linear_probe {fs : List (List InputTuple)} {f : List InputTuple} (hfs : ∀ g ∈ fs ++ [f], Carried x.keyType g)
    (hframes : fs.length < maxProbeFrames) (hbefore : fs.flatten.length < x.config.outerCount.toNat)
    (hlast : x.config.outerCount.toNat ≤ (fs ++ [f]).flatten.length) :
    ∃ pre, (∀ o ∈ pre, o.Progress resultFlushPairs) ∧
      resultPairs pre = join x.inner ((fs ++ [f]).flatten.take x.config.outerCount.toNat) ∧
      Plays b (enterProbe b (x.conf 1 0) 0 0 x.inner [] []) ((fs ++ [f]).map (.data .outer x.keyType))
        (pre ++ [.timing, doneStatus (x.conf 1 0) x.config.outerCount.toNat
          (join x.inner ((fs ++ [f]).flatten.take x.config.outerCount.toNat)).length])
        (endSession b).2 := by
  obtain ⟨pre, pending, buf, hpre, hbuf, hpairs, hmid⟩ := probe_plays (b := b) (c := x.conf 1 0)
    x.inner 0 0 [] []
    (fun g hg => hfs g (List.mem_append_left _ hg)) (by omega) (by decide) hbefore
  have hflat : (fs ++ [f]).flatten = fs.flatten ++ f := by simp
  rw [hflat] at hlast ⊢
  rw [← List.nil_append fs.flatten] at hlast
  obtain ⟨pre', hpre', hpairs', hend⟩ := probe_last (b := b) (c := x.conf 1 0) x.inner
    (0 + fs.length) pending ([] ++ fs.flatten) f buf
    (hfs f (by simp)) (by omega) hbuf hbefore hlast
  refine ⟨pre ++ pre', ?_, ?_, ?_⟩
  · intro o ho
    rcases List.mem_append.mp ho with ho | ho
    · exact hpre o ho
    · exact hpre' o ho
  · rw [resultPairs_append, hpairs', ← List.append_assoc, hpairs, List.nil_append, ← join_append,
      List.take_append, List.take_of_length_le hbefore.le]
    rfl
  · rw [List.map_append, List.append_assoc]
    exact hmid hend

/-- The number in the STATUS frame is the number of pairs. -/
theorem toNat_matched (inner : List InputTuple) {outer : List InputTuple} (count : UInt32)
    (h : outer.length ≤ count.toNat) :
    (UInt32.ofNat (join inner outer).length).toNat = (join inner outer).length := by
  have hle : (join inner outer).length ≤ count.toNat := (length_join_le inner outer).trans h
  exact UInt32.toNat_ofNat_of_lt (hle.trans_lt count.toNat_lt)

/-- A C simulation has returned when its session is over. -/
theorem returned_of_ended {q : KProc Session} (h : Rep b (endSession b).2 q)
    (hb : b.synthesis = false) : ∃ s, q = .ret s := by
  simp only [endSession, hb] at h
  exact h

/-- A whole session whose inner rows fit, with all outer rows. -/
theorem linear_plays (halg : x.config.algorithm = AlgorithmType.algorithmA.code)
    (hcap : x.inner.length ≤ htMaxRows) (hfits : LinearHashTable.fits x.inner)
    (houter : x.config.outerCount.toNat = x.outer.length)
    (hframes : x.outerFrames.length ≤ maxProbeFrames) :
    ∃ pre processed, (∀ o ∈ pre, o.Progress resultFlushPairs) ∧
      resultPairs pre = join x.inner x.outer ∧
      Plays b ([], .idle) x.frames
        (pre ++ [.timing, doneStatus (x.conf 1 0) processed (join x.inner x.outer).length])
        (endSession b).2 := by
  obtain ⟨acks, hacks, hbuild⟩ := linear_build (b := b) halg hcap hfits
  rcases List.eq_nil_or_concat x.outerFrames with hnil | ⟨fs, f, hsplit⟩
  · -- no outer rows: the session is over when the table is built
    have hzero : x.config.outerCount.toNat = 0 := by
      rw [houter, SessionInput.outer, hnil]
      rfl
    refine ⟨acks, 0, fun o ho => (hacks o ho).progress _, ?_, ?_⟩
    · rw [resultPairs_of_buildAcks hacks, SessionInput.outer, hnil]
      rfl
    · have htotal : (x.conf 1 0).outerTotal = 0 := hzero
      have hend : ¬ (0 < maxProbeFrames ∧ ([] : List InputTuple).length < (x.conf 1 0).outerTotal) := by
        rw [htotal]
        exact fun h => Nat.not_lt_zero _ h.2
      have hplay : Plays b (enterProbe b (x.conf 1 0) 0 0 x.inner [] []) []
          [.timing, doneStatus (x.conf 1 0) 0 (join x.inner x.outer).length] (endSession b).2 := by
        rw [enterProbe, if_neg hend, SessionInput.outer, hnil]
        exact (Plays.nil b (endSession b)).emit _
      rw [SessionInput.frames, hnil]
      exact hbuild hplay
  · rw [List.concat_eq_append] at hsplit
    have hcarried := x.outerFrames_carried
    rw [hsplit] at hcarried hframes
    have hpos := (hcarried f (by simp)).pos
    have htotal : (fs ++ [f]).flatten.length = x.config.outerCount.toNat := by
      rw [houter, SessionInput.outer, hsplit]
    have hbefore : fs.flatten.length < x.config.outerCount.toNat := by
      rw [← htotal, List.flatten_append, List.length_append, List.flatten_singleton]
      omega
    rw [List.length_append, List.length_singleton] at hframes
    obtain ⟨pre, hpre, hpairs, hplay⟩ := linear_probe (b := b) hcarried hframes hbefore htotal.ge
    have hall : (fs ++ [f]).flatten.take x.config.outerCount.toNat = x.outer := by
      rw [List.take_of_length_le htotal.le, ← hsplit]
      rfl
    rw [hall] at hpairs hplay
    refine ⟨acks ++ pre, x.config.outerCount.toNat, ?_, ?_, ?_⟩
    · intro o ho
      rcases List.mem_append.mp ho with ho | ho
      · exact (hacks o ho).progress _
      · exact hpre o ho
    · rw [resultPairs_append, resultPairs_of_buildAcks hacks, hpairs, List.nil_append]
    · rw [List.append_assoc, SessionInput.frames, hsplit]
      exact hbuild hplay

/-- **An Algorithm A session reports the join.** Given the frames of a session with all its
rows, the kernel sends ACK frames and RESULT frames of at most 118 pairs that together are the
join, then the timing record and the final STATUS with the number of pairs; or, if the inner
rows do not fit the table, it sends the overflow error after acknowledgements of the build
phase only. Which of the two happens, and the pairs, depend on the rows and not on how they
are split into frames. -/
theorem linear_session (b : Build) (s : Session) (x : SessionInput)
    (halg : x.config.algorithm = AlgorithmType.algorithmA.code)
    (hcap : x.inner.length ≤ htMaxRows)
    (houter : x.config.outerCount.toNat = x.outer.length)
    (hframes : x.outerFrames.length ≤ 1000000) :
    if LinearHashTable.fits x.inner then
      ∃ outs q pre st, Settles (hashJoinKernel b s) (answers x.frames) outs q ∧
        outs.flatMap TxFrame.obs = pre ++ [.timing, .status st] ∧
        (∀ o ∈ pre, o.Progress resultFlushPairs) ∧
        resultPairs pre = join x.inner x.outer ∧
        st.phase = Phase.done.code ∧ st.sessionId = x.config.sessionId ∧
        st.rowsMatched.toNat = (join x.inner x.outer).length ∧
        (b.synthesis = false → ∃ s', q = .ret s')
    else
      ∃ done todo outs q pre, x.innerFrames = done ++ todo ∧
        Settles (hashJoinKernel b s)
          (answers (.configure x.config :: done.map (.data .inner x.keyType))) outs q ∧
        outs.flatMap TxFrame.obs = pre ++ [.error FpgaError.overflow.code] ∧
        (∀ o ∈ pre, IsBuildAck o) ∧ (b.synthesis = false → ∃ s', q = .ret s') := by
  by_cases hfits : LinearHashTable.fits x.inner
  · rw [if_pos hfits]
    obtain ⟨pre, processed, hpre, hpairs, hplay⟩ := linear_plays halg hcap hfits houter hframes
    obtain ⟨outs, q, hsettles, hobs, hq⟩ := hplay.settles s
    refine ⟨outs, q, pre, _, hsettles, hobs, hpre, hpairs, rfl, rfl, ?_, returned_of_ended hq⟩
    exact toNat_matched x.inner x.config.outerCount houter.ge
  · rw [if_neg hfits]
    obtain ⟨done, todo, acks, hsplit, hacks, hplay⟩ := linear_overflow (b := b) halg hcap hfits
    obtain ⟨outs, q, hsettles, hobs, hq⟩ := hplay.settles s
    exact ⟨done, todo, outs, q, acks, hsplit, hsettles, hobs, hacks, returned_of_ended hq⟩

/-- A session that joins one row with one row. -/
def oneRowEach (algorithm : AlgorithmType) : SessionInput where
  config := ⟨algorithm.code, KeyType.int32.code, 0, 1, 1, 9⟩
  keyType := .int32
  innerFrames := [[(7, ⟨1, 1⟩)]]
  outerFrames := [[(7, ⟨2, 1⟩)]]
  keyType_eq := rfl
  innerCount_eq := rfl
  innerSizes := by decide
  outerSizes := by decide
  innerKeys := by decide
  outerKeys := by decide

theorem linear_session_oneRowEach :
    ∃ outs q pre st,
      Settles (hashJoinKernel (.csim {}) default) (answers (oneRowEach .algorithmA).frames) outs q ∧
      outs.flatMap TxFrame.obs = pre ++ [.timing, .status st] ∧
      resultPairs pre = [(⟨1, 1⟩, ⟨2, 1⟩)] ∧ st.rowsMatched.toNat = 1 := by
  have h := linear_session (.csim {}) default (oneRowEach .algorithmA) rfl (by decide) rfl
    (by decide)
  rw [if_pos (by decide)] at h
  obtain ⟨outs, q, pre, st, hsettles, hobs, -, hpairs, -, -, hmatched, -⟩ := h
  exact ⟨outs, q, pre, st, hsettles, hobs, hpairs, hmatched⟩

end Linear

end FpgaHashJoin
