import FpgaHashJoin.Kernel.Sessions

/-!
# When DONE means that all rows have been probed

The probe loop takes at most `maxProbeFrames` frames. A session whose outer rows are spread
over more frames leaves the loop early; the final STATUS then follows although rows are
missing and the result buffer has not been sent. The module shows that this is the only way
in which a STATUS can be wrong.
-/

namespace FpgaHashJoin

open Process EquiJoin KState

namespace SessionInput

variable (x : SessionInput)

/-- CONFIGURE, all inner frames, and the first `k` outer frames. -/
def framesUpTo (k : Nat) : List HostFrame :=
  .configure x.config :: (x.innerFrames.map (.data .inner x.keyType) ++
    (x.outerFrames.take k).map (.data .outer x.keyType))

/-- The kernel, having read `ins`, has received all outer rows. -/
def AllRead (ins : List (Site × Option UInt8)) : Prop :=
  x.config.outerCount.toNat = 0 ∨ ∃ k, answers (x.framesUpTo k) <+: ins.map Prod.snd ∧
    x.config.outerCount.toNat ≤ (x.outerFrames.take k).flatten.length

end SessionInput

/-- A STATUS frame with the phase DONE, as the first frame that ends a session. -/
structure FirstDone (outs : List TxFrame) (pre : List KOut) (st : StatusPayload) : Prop where
  sent : outs.flatMap TxFrame.obs = pre ++ [.status st]
  first : ∀ o ∈ pre, (∀ st', o ≠ .status st') ∧ ∀ e, o ≠ .error e
  done : st.phase = Phase.done.code

/-- Whenever the kernel reports DONE it has received all outer rows, and it has sent as many
pairs as it reports. It has probed every one of the rows: the pairs are those of the join. -/
def DoneIsComplete (b : Build) (x : SessionInput) : Prop :=
  ∀ s ins outs q pre st, Runs (hashJoinKernel b s) ins outs q →
    ins.map Prod.snd <+: answers x.frames → FirstDone outs pre st →
    x.AllRead ins ∧ (resultPairs pre).length = st.rowsMatched.toNat ∧
      resultPairs pre = join x.inner (x.outerFrames.flatten.take x.config.outerCount.toNat)

theorem answers_append (fs gs : List HostFrame) : answers (fs ++ gs) = answers fs ++ answers gs :=
  List.flatMap_append

theorem answers_mono {fs gs : List HostFrame} (h : fs <+: gs) : answers fs <+: answers gs := by
  obtain ⟨hs, rfl⟩ := h
  exact ⟨answers hs, (answers_append fs hs).symm⟩

theorem answers_eq_nil {fs : List HostFrame} (h : answers fs = []) : fs = [] := by
  cases fs with
  | nil => rfl
  | cons f fs =>
    have hnil : f.bytes = [] := by
      simpa [answers] using (List.append_eq_nil_iff.mp h).1
    exact absurd hnil f.bytes_ne_nil

theorem SessionInput.framesUpTo_le (x : SessionInput) (k : Nat) : x.framesUpTo k <+: x.frames := by
  refine (List.prefix_append_right_inj [HostFrame.configure x.config]).mpr ?_
  refine (List.prefix_append_right_inj _).mpr ?_
  exact (List.take_prefix k x.outerFrames).map _

/-- Frames of a longer prefix have more bytes. -/
theorem SessionInput.rows_mono {x : SessionInput} {k n : Nat}
    (h : answers (x.framesUpTo k) <+: answers (x.framesUpTo n)) :
    (x.outerFrames.take k).flatten.length ≤ (x.outerFrames.take n).flatten.length := by
  by_cases hkn : k ≤ n
  · have hpart : x.outerFrames.take k <+: x.outerFrames.take n := List.take_prefix_take_left hkn
    obtain ⟨rest, hrest⟩ := hpart
    rw [← hrest, List.flatten_append, List.length_append]
    omega
  · have hpart : x.outerFrames.take n <+: x.outerFrames.take k :=
      List.take_prefix_take_left (by omega)
    obtain ⟨rest, hrest⟩ := hpart
    have hframes : x.framesUpTo k =
        x.framesUpTo n ++ rest.map (.data .outer x.keyType) := by
      simp [SessionInput.framesUpTo, ← hrest]
    have hlen := h.length_le
    rw [hframes, answers_append, List.length_append] at hlen
    have hnil : answers (rest.map (HostFrame.data .outer x.keyType)) = [] :=
      List.eq_nil_of_length_eq_zero (by omega)
    have hrest' : rest = [] := by simpa using answers_eq_nil hnil
    rw [← hrest, hrest', List.append_nil]

section Report

variable {b : Build} {x : SessionInput} {s : Session} {ins : List (Site × Option UInt8)}
  {outs : List TxFrame} {q : KProc Session} {pre : List KOut} {st : StatusPayload}
  {fs : List HostFrame} {os : List KOut} {u : KState}

theorem Plays.path (h : Plays b ([], .idle) fs os u) :
    ∃ l, (kernelMachine b).Path .idle (fs.map .frame) l os u := by
  obtain ⟨l, os', hpath, rfl⟩ := h
  exact ⟨l, hpath⟩

theorem Plays.obs_le (h : Plays b ([], .idle) fs os u) (hrun : Runs (hashJoinKernel b s) ins outs q)
    (hins : ins.map Prod.snd <+: answers fs) : outs.flatMap TxFrame.obs <+: os := by
  obtain ⟨l, hpath⟩ := h.path
  rw [← vals_frames] at hins
  exact hpath.obs_le (kernel_enters b s) hrun hins

/-- On the frames of a session, what is sent is comparable with what the machine sends for a
part of the frames. -/
theorem Plays.comparable (h : Plays b ([], .idle) fs os u) (hfs : fs <+: x.frames)
    (hrun : Runs (hashJoinKernel b s) ins outs q) (hins : ins.map Prod.snd <+: answers x.frames) :
    os <+: outs.flatMap TxFrame.obs ∨ outs.flatMap TxFrame.obs <+: os := by
  rcases List.prefix_or_prefix_of_prefix hins (answers_mono hfs) with hle | hle
  · exact Or.inr (h.obs_le hrun hle)
  · obtain ⟨outs₀, q₀, ⟨⟨ins₀, hrun₀, hins₀⟩, -⟩, hobs, -⟩ := h.settles s
    rw [← hins₀] at hle
    rcases hrun₀.linear hrun (Or.inl hle) with ⟨_, outs₂, -, -, rfl⟩ | ⟨_, outs₂, -, -, rfl⟩
    · exact Or.inl ⟨outs₂.flatMap TxFrame.obs, by rw [List.flatMap_append, hobs]⟩
    · exact Or.inr ⟨outs₂.flatMap TxFrame.obs, by rw [← List.flatMap_append, hobs]⟩

/-- Frames that leave the session open. -/
def NoEnd (os : List KOut) : Prop := ∀ o ∈ os, ∀ st', o ≠ .status st'

theorem NoEnd.append {os os' : List KOut} (h : NoEnd os) (h' : NoEnd os') : NoEnd (os ++ os') := by
  intro o ho
  rcases List.mem_append.mp ho with ho | ho
  · exact h o ho
  · exact h' o ho

theorem noEnd_progress {os : List KOut} {cap : Nat} (h : ∀ o ∈ os, o.Progress cap) : NoEnd os := by
  rintro o ho st' rfl
  exact h _ ho

theorem noEnd_buildAcks {os : List KOut} (h : ∀ o ∈ os, IsBuildAck o) : NoEnd os :=
  noEnd_progress fun o ho => (h o ho).progress 0

/-- The STATUS that the kernel sends is the one that the machine sends. -/
theorem FirstDone.eq {pre' : List KOut} {st' : StatusPayload} (h : FirstDone outs pre st)
    (hpre' : NoEnd pre') (hcmp : pre' ++ [.status st'] <+: outs.flatMap TxFrame.obs ∨
      outs.flatMap TxFrame.obs <+: pre' ++ [.status st']) : pre = pre' ∧ st = st' := by
  have hpre : NoEnd pre := fun o ho => (h.first o ho).1
  rw [h.sent] at hcmp
  have heq : pre ++ [KOut.status st] = pre' ++ [.status st'] := by
    rcases hcmp with hcmp | hcmp
    · rcases List.prefix_concat_iff.mp hcmp with heq | hlt
      · exact heq.symm
      · exact absurd rfl (hpre _ (hlt.subset (by simp)) st')
    · rcases List.prefix_concat_iff.mp hcmp with heq | hlt
      · exact heq
      · exact absurd rfl (hpre' _ (hlt.subset (by simp)) st)
  obtain ⟨rfl, hst⟩ := List.append_inj' heq rfl
  exact ⟨rfl, by simpa using hst⟩

theorem FirstDone.not_noEnd (h : FirstDone outs pre st) (hos : NoEnd os)
    (hcmp : outs.flatMap TxFrame.obs <+: os) : False := by
  rw [h.sent] at hcmp
  exact hos _ (hcmp.subset (by simp)) st rfl

end Report

/-! ## The three ways through the probe phase -/

/-- The frame that brings row `n`. -/
theorem exists_frame_of_row {α : Type} (fs : List (List α)) {n : Nat} (hpos : 0 < n)
    (hn : n ≤ fs.flatten.length) :
    ∃ before f after, fs = before ++ f :: after ∧ before.flatten.length < n ∧
      n ≤ (before ++ [f]).flatten.length := by
  induction fs generalizing n with
  | nil =>
    rw [List.flatten_nil, List.length_nil] at hn
    omega
  | cons f fs ih =>
    by_cases hf : n ≤ f.length
    · exact ⟨[], f, fs, rfl, by simpa using hpos, by simpa using hf⟩
    · rw [List.flatten_cons, List.length_append] at hn
      obtain ⟨before, g, after, rfl, hlt, hle⟩ := ih (n := n - f.length) (by omega) (by omega)
      refine ⟨f :: before, g, after, rfl, ?_, ?_⟩
      · rw [List.flatten_cons, List.length_append]
        omega
      · rw [List.cons_append, List.flatten_cons, List.length_append]
        omega

section Linear

variable {b : Build} {x : SessionInput}

theorem SessionInput.carried_take (x : SessionInput) (k : Nat) :
    ∀ f ∈ x.outerFrames.take k, Carried x.keyType f :=
  fun f hf => x.outerFrames_carried f (List.mem_of_mem_take hf)

/-- The probe phase over frames that do not bring all rows. -/
theorem linear_partial (halg : x.config.algorithm = AlgorithmType.algorithmA.code)
    (hcap : x.inner.length ≤ htMaxRows) (hfits : LinearHashTable.fits x.inner) {k : Nat}
    (hk : (x.outerFrames.take k).length ≤ maxProbeFrames)
    (hmore : (x.outerFrames.take k).flatten.length < x.config.outerCount.toNat) :
    ∃ os pending buf, NoEnd os ∧ (∀ o ∈ os, ∀ e, o ≠ .error e) ∧ ∀ {es os' st},
      Plays b (enterProbe b (x.conf 1 0) (x.outerFrames.take k).length pending x.inner
        (x.outerFrames.take k).flatten buf) es os' st →
      Plays b ([], .idle) (x.framesUpTo k ++ es) (os ++ os') st := by
  obtain ⟨acks, hacks, hbuild⟩ := linear_build (b := b) halg hcap hfits
  obtain ⟨pre, pending, buf, hpre, hbuf, hpairs, hprobe⟩ := probe_plays (b := b)
    (c := x.conf 1 0) x.inner 0 0 [] []
    (x.carried_take k) (by omega) (by decide) hmore
  refine ⟨acks ++ pre, pending, buf, (noEnd_buildAcks hacks).append (noEnd_progress hpre), ?_, ?_⟩
  · rintro o ho e rfl
    rcases List.mem_append.mp ho with ho | ho
    · exact (hacks _ ho).progress 0
    · exact hpre _ ho
  · intro es os' st h
    rw [Nat.zero_add, List.nil_append] at hprobe
    rw [SessionInput.framesUpTo, List.cons_append, List.append_assoc, List.append_assoc]
    exact hbuild (hprobe h)

/-- **The loop bound cuts the probe phase short.** -/
theorem linear_cut (halg : x.config.algorithm = AlgorithmType.algorithmA.code)
    (hcap : x.inner.length ≤ htMaxRows) (hfits : LinearHashTable.fits x.inner)
    (hframes : maxProbeFrames ≤ x.outerFrames.length)
    (hmore : (x.outerFrames.take maxProbeFrames).flatten.length < x.config.outerCount.toNat) :
    ∃ pre matched, NoEnd pre ∧ (∀ o ∈ pre, ∀ e, o ≠ .error e) ∧ .timing ∈ pre ∧
      Plays b ([], .idle) (x.framesUpTo maxProbeFrames)
        (pre ++ [doneStatus (x.conf 1 0) 0 matched]) (endSession b).2 := by
  have hlen : (x.outerFrames.take maxProbeFrames).length = maxProbeFrames := by
    rw [List.length_take]
    omega
  obtain ⟨os, pending, buf, hos, herr, hplay⟩ := linear_partial (b := b) halg hcap hfits hlen.le hmore
  have hend := (Plays.nil b (endSession b)).emit [.timing, doneStatus (x.conf 1 0) 0
    (join x.inner (x.outerFrames.take maxProbeFrames).flatten).length]
  have hhead : enterProbe b (x.conf 1 0) (x.outerFrames.take maxProbeFrames).length pending x.inner
      (x.outerFrames.take maxProbeFrames).flatten buf =
      .emit [.timing, doneStatus (x.conf 1 0) 0
        (join x.inner (x.outerFrames.take maxProbeFrames).flatten).length] (endSession b) := by
    rw [enterProbe, hlen, if_neg (fun h => absurd h.1 (lt_irrefl _))]
  rw [← hhead] at hend
  refine ⟨os ++ [.timing], (join x.inner (x.outerFrames.take maxProbeFrames).flatten).length,
    ?_, ?_, by simp, ?_⟩
  · refine hos.append ?_
    simp [NoEnd]
  · intro o ho e
    rcases List.mem_append.mp ho with ho | ho
    · exact herr o ho e
    · rw [List.mem_singleton.mp ho]
      simp
  · have hall := hplay hend
    simpa [endSession] using hall

/-- A session that is cut short reports DONE without all its rows. -/
theorem not_doneIsComplete (halg : x.config.algorithm = AlgorithmType.algorithmA.code)
    (hcap : x.inner.length ≤ htMaxRows) (hfits : LinearHashTable.fits x.inner)
    (hframes : maxProbeFrames ≤ x.outerFrames.length)
    (hmore : (x.outerFrames.take maxProbeFrames).flatten.length < x.config.outerCount.toNat) :
    ¬ DoneIsComplete b x := by
  intro hall
  obtain ⟨pre, matched, hpre, herr, -, hplay⟩ := linear_cut (b := b) halg hcap hfits hframes hmore
  obtain ⟨outs, q, ⟨⟨ins, hrun, hins⟩, -⟩, hobs, -⟩ := hplay.settles default
  have hpart : ins.map Prod.snd <+: answers x.frames := by
    rw [hins]
    exact answers_mono (x.framesUpTo_le _)
  have hdone : FirstDone outs pre _ := ⟨hobs, fun o ho => ⟨hpre o ho, herr o ho⟩, rfl⟩
  rcases (hall default ins outs q pre _ hrun hpart hdone).1 with hzero | ⟨k, hk, hrows⟩
  · omega
  · rw [hins] at hk
    have hle := SessionInput.rows_mono hk
    omega

/-- A session that overflows reports no DONE. -/
theorem doneIsComplete_of_overflow (halg : x.config.algorithm = AlgorithmType.algorithmA.code)
    (hcap : x.inner.length ≤ htMaxRows) (hfits : ¬ LinearHashTable.fits x.inner) :
    DoneIsComplete b x := by
  intro s ins outs q pre st hrun hins hdone
  exfalso
  obtain ⟨done, todo, acks, hsplit, hacks, hplay⟩ := linear_overflow (b := b) halg hcap hfits
  have hpart : .configure x.config :: done.map (HostFrame.data .inner x.keyType) <+: x.frames := by
    refine ⟨todo.map (.data .inner x.keyType) ++ x.outerFrames.map (.data .outer x.keyType), ?_⟩
    simp [SessionInput.frames, hsplit]
  rcases hplay.comparable hpart hrun hins with hcmp | hcmp
  · rw [hdone.sent] at hcmp
    have herror : KOut.error FpgaError.overflow.code ∈ pre ++ [.status st] :=
      hcmp.subset (by simp)
    rcases List.mem_append.mp herror with hmem | hmem
    · exact (hdone.first _ hmem).2 _ rfl
    · simp at hmem
  · refine hdone.not_noEnd ((noEnd_buildAcks hacks).append ?_) hcmp
    simp [NoEnd]

/-- The frame with the last row is read before STATUS is sent. -/
theorem lastFrame_read {s : Session} {ins : List (Site × Option UInt8)} {outs : List TxFrame}
    {q : KProc Session} {k : Nat} {os os' : List KOut} {st : StatusPayload} {u u' : KState}
    {f : HostFrame} (hnext : x.framesUpTo (k + 1) = x.framesUpTo k ++ [f])
    (hbefore : Plays b ([], .idle) (x.framesUpTo k) os u) (hos : NoEnd os)
    (hall : Plays b ([], .idle) (x.framesUpTo (k + 1)) os' u')
    (hrun : Runs (hashJoinKernel b s) ins outs q) (hins : ins.map Prod.snd <+: answers x.frames)
    (hst : .status st ∈ outs.flatMap TxFrame.obs) :
    answers (x.framesUpTo (k + 1)) <+: ins.map Prod.snd := by
  rcases List.prefix_or_prefix_of_prefix hins (answers_mono (x.framesUpTo_le (k + 1))) with
    hle | hle
  · obtain ⟨l, hpath⟩ := hbefore.path
    obtain ⟨m, hpath'⟩ := hall.path
    rw [hnext, List.map_append] at hpath'
    obtain ⟨l₁, os₁, v, l₂, os₂, hfirst, hlast, -, -⟩ := hpath'.split
    obtain ⟨rfl, rfl, rfl⟩ := hpath.unique hfirst
    rw [← vals_frames, hnext, List.map_append] at hle ⊢
    have hread := hpath.all_read hlast (kernel_enters b s) hrun hle hst (fun h => hos _ h st rfl)
    have hvals := (hpath.trans hlast).vals
    have hmap := hread.map Prod.snd
    rw [hvals] at hmap
    exact hmap
  · exact hle

/-- A session without outer rows is done when the table is built. -/
theorem doneIsComplete_of_empty (halg : x.config.algorithm = AlgorithmType.algorithmA.code)
    (hcap : x.inner.length ≤ htMaxRows) (hfits : LinearHashTable.fits x.inner)
    (hzero : x.config.outerCount.toNat = 0) : DoneIsComplete b x := by
  intro s ins outs q pre st hrun hins hdone
  obtain ⟨acks, hacks, hbuild⟩ := linear_build (b := b) halg hcap hfits
  refine ⟨Or.inl hzero, ?_⟩
  have htotal : (x.conf 1 0).outerTotal = 0 := hzero
  have hhead : enterProbe b (x.conf 1 0) 0 0 x.inner [] [] =
      .emit [.timing, doneStatus (x.conf 1 0) 0 0] (endSession b) := by
    rw [enterProbe, htotal, if_neg (fun h => Nat.not_lt_zero _ h.2)]
    rfl
  have hend := (Plays.nil b (endSession b)).emit [.timing, doneStatus (x.conf 1 0) 0 0]
  rw [← hhead] at hend
  have hplay := hbuild hend
  have hpart : .configure x.config :: (x.innerFrames.map (HostFrame.data .inner x.keyType) ++ [])
      <+: x.frames := by
    refine ⟨x.outerFrames.map (.data .outer x.keyType), ?_⟩
    simp [SessionInput.frames]
  have hos : acks ++ ([.timing, doneStatus (x.conf 1 0) 0 0] ++ (endSession b).1) =
      acks ++ [.timing] ++ [doneStatus (x.conf 1 0) 0 0] := by
    simp [endSession]
  rw [hos] at hplay
  obtain ⟨rfl, rfl⟩ := hdone.eq ((noEnd_buildAcks hacks).append (by simp [NoEnd]))
    (hplay.comparable hpart hrun hins)
  have hnone : resultPairs (acks ++ [.timing]) = [] := by
    rw [resultPairs_append, resultPairs_of_buildAcks hacks]
    rfl
  rw [hnone, hzero, List.take_zero, join_nil]
  exact ⟨rfl, rfl⟩

/-- Within the bound there is a frame with the last of the outer rows. -/
theorem exists_lastFrame (hpos : 0 < x.config.outerCount.toNat)
    (hrows : x.config.outerCount.toNat ≤ (x.outerFrames.take maxProbeFrames).flatten.length) :
    ∃ fs f, fs.length < maxProbeFrames ∧ x.outerFrames.take fs.length = fs ∧
      x.outerFrames.take (fs.length + 1) = fs ++ [f] ∧
      fs.flatten.length < x.config.outerCount.toNat ∧
      x.config.outerCount.toNat ≤ (fs ++ [f]).flatten.length := by
  obtain ⟨fs, f, after, hsplit, hbefore, hlast⟩ := exists_frame_of_row _ hpos hrows
  have hlen : fs.length < maxProbeFrames := by
    have hle := List.length_take_le maxProbeFrames x.outerFrames
    rw [hsplit, List.length_append, List.length_cons] at hle
    omega
  have htake : ∀ n ≤ maxProbeFrames, x.outerFrames.take n = (fs ++ f :: after).take n := by
    intro n hn
    rw [← hsplit, List.take_take, min_eq_left hn]
  refine ⟨fs, f, hlen, ?_, ?_, hbefore, hlast⟩
  · rw [htake _ hlen.le]
    simp
  · rw [htake _ hlen]
    simp [List.take_append]

/-- The items behind the needed ones do not matter. -/
theorem take_flatten_take {α : Type} {xss : List (List α)} {k n : Nat}
    (h : n ≤ (xss.take k).flatten.length) : (xss.take k).flatten.take n = xss.flatten.take n := by
  have hall : xss.flatten = (xss.take k).flatten ++ (xss.drop k).flatten := by
    rw [← List.flatten_append, List.take_append_drop]
  rw [hall, List.take_append_of_le_length h]

/-- A session that stays within the bound reports DONE only with all its rows. -/
theorem doneIsComplete_of_rows (halg : x.config.algorithm = AlgorithmType.algorithmA.code)
    (hcap : x.inner.length ≤ htMaxRows) (hfits : LinearHashTable.fits x.inner)
    (hpos : 0 < x.config.outerCount.toNat)
    (hrows : x.config.outerCount.toNat ≤ (x.outerFrames.take maxProbeFrames).flatten.length) :
    DoneIsComplete b x := by
  intro s ins outs q pre st hrun hins hdone
  obtain ⟨acks, hacks, hbuild⟩ := linear_build (b := b) halg hcap hfits
  obtain ⟨fs, f, hlen, htake, htake', hbefore, hlast⟩ := exists_lastFrame hpos hrows
  have hcarried : ∀ g ∈ fs ++ [f], Carried x.keyType g := htake' ▸ x.carried_take (fs.length + 1)
  have hnext : x.framesUpTo (fs.length + 1) =
      x.framesUpTo fs.length ++ [.data .outer x.keyType f] := by
    rw [SessionInput.framesUpTo, SessionInput.framesUpTo, htake, htake']
    simp
  obtain ⟨pre', hpre', hpairs, hprobe⟩ := linear_probe (b := b) hcarried hlen hbefore hlast
  have hplay := hbuild hprobe
  have hframes : .configure x.config :: (x.innerFrames.map (HostFrame.data .inner x.keyType) ++
      (fs ++ [f]).map (.data .outer x.keyType)) = x.framesUpTo (fs.length + 1) := by
    rw [SessionInput.framesUpTo, htake']
  rw [hframes] at hplay
  rw [← htake] at hbefore
  obtain ⟨os, pending, buf, hos, -, hpartial⟩ := linear_partial (b := b) halg hcap hfits
    (k := fs.length) (by rw [htake]; exact hlen.le) hbefore
  have hopen : enterProbe b (x.conf 1 0) (x.outerFrames.take fs.length).length pending x.inner
      (x.outerFrames.take fs.length).flatten buf = ([], .probe (x.conf 1 0)
        (x.outerFrames.take fs.length).length pending x.inner
        (x.outerFrames.take fs.length).flatten buf) := by
    rw [enterProbe, if_pos ⟨by rw [htake]; exact hlen, hbefore⟩]
  have hpart := hpartial (Plays.nil b _)
  rw [hopen, List.append_nil, List.append_nil] at hpart
  have hread := lastFrame_read hnext hpart hos hplay hrun hins
    (by rw [hdone.sent]; simp : KOut.status st ∈ _)
  refine ⟨Or.inr ⟨fs.length + 1, hread, by rw [htake']; exact hlast⟩, ?_⟩
  have hassoc : acks ++ (pre' ++ [.timing, doneStatus (x.conf 1 0) x.config.outerCount.toNat
      (join x.inner ((fs ++ [f]).flatten.take x.config.outerCount.toNat)).length]) =
      acks ++ pre' ++ [.timing] ++ [doneStatus (x.conf 1 0) x.config.outerCount.toNat
        (join x.inner ((fs ++ [f]).flatten.take x.config.outerCount.toNat)).length] := by
    simp
  rw [hassoc] at hplay
  have hnoEnd : NoEnd (acks ++ pre' ++ [.timing]) :=
    ((noEnd_buildAcks hacks).append (noEnd_progress hpre')).append (by simp [NoEnd])
  obtain ⟨rfl, rfl⟩ := hdone.eq hnoEnd
    (hplay.comparable (x.framesUpTo_le _) hrun hins)
  have hle : ((fs ++ [f]).flatten.take x.config.outerCount.toNat).length ≤
      x.config.outerCount.toNat := List.length_take_le _ _
  have hmatched := toNat_matched x.inner x.config.outerCount hle
  have hsent : resultPairs (acks ++ pre' ++ [.timing]) =
      join x.inner ((fs ++ [f]).flatten.take x.config.outerCount.toNat) := by
    rw [resultPairs_append, resultPairs_append, resultPairs_of_buildAcks hacks, hpairs,
      List.nil_append]
    exact List.append_nil _
  -- the frames behind the last row are not probed
  have hprobed : (fs ++ [f]).flatten.take x.config.outerCount.toNat =
      x.outerFrames.flatten.take x.config.outerCount.toNat := by
    rw [← htake'] at hlast ⊢
    exact take_flatten_take hlast
  rw [hsent, ← hprobed]
  exact ⟨hmatched.symm, rfl⟩

/-- A session with too few rows that stays below the bound reports no DONE. -/
theorem doneIsComplete_of_open (halg : x.config.algorithm = AlgorithmType.algorithmA.code)
    (hcap : x.inner.length ≤ htMaxRows) (hfits : LinearHashTable.fits x.inner)
    (hframes : x.outerFrames.length < maxProbeFrames)
    (hmore : (x.outerFrames.take maxProbeFrames).flatten.length < x.config.outerCount.toNat) :
    DoneIsComplete b x := by
  intro s ins outs q pre st hrun hins hdone
  exfalso
  have htake : x.outerFrames.take maxProbeFrames = x.outerFrames := List.take_of_length_le hframes.le
  obtain ⟨os, pending, buf, hos, -, hpartial⟩ := linear_partial (b := b) halg hcap hfits
    (by rw [htake]; exact hframes.le) hmore
  have hopen : enterProbe b (x.conf 1 0) (x.outerFrames.take maxProbeFrames).length pending x.inner
      (x.outerFrames.take maxProbeFrames).flatten buf = ([], .probe (x.conf 1 0)
        (x.outerFrames.take maxProbeFrames).length pending x.inner
        (x.outerFrames.take maxProbeFrames).flatten buf) := by
    rw [enterProbe, if_pos ⟨by rw [htake]; exact hframes, hmore⟩]
  have hplay := hpartial (Plays.nil b _)
  rw [hopen] at hplay
  have hframes' : x.framesUpTo maxProbeFrames = x.frames := by
    rw [SessionInput.framesUpTo, htake, SessionInput.frames]
  rw [List.append_nil, List.append_nil, hframes'] at hplay
  exact hdone.not_noEnd hos (hplay.obs_le hrun hins)

/-- **DONE is wrong exactly for sessions that the loop bound cuts short.** -/
theorem doneIsComplete_iff (b : Build) (x : SessionInput)
    (halg : x.config.algorithm = AlgorithmType.algorithmA.code)
    (hcap : x.inner.length ≤ htMaxRows) :
    DoneIsComplete b x ↔ ¬ LinearHashTable.fits x.inner ∨ x.outerFrames.length < 1000000 ∨
      x.config.outerCount.toNat ≤ (x.outerFrames.take 1000000).flatten.length := by
  constructor
  · intro h
    by_contra hnot
    rw [not_or, not_or, not_not, not_lt, not_le] at hnot
    exact not_doneIsComplete halg hcap hnot.1 hnot.2.1 hnot.2.2 h
  · intro h
    by_cases hfits : LinearHashTable.fits x.inner
    · by_cases hrows : x.config.outerCount.toNat ≤
          (x.outerFrames.take maxProbeFrames).flatten.length
      · by_cases hzero : x.config.outerCount.toNat = 0
        · exact doneIsComplete_of_empty halg hcap hfits hzero
        · exact doneIsComplete_of_rows halg hcap hfits (Nat.pos_of_ne_zero hzero) hrows
      · have hshort : x.outerFrames.length < maxProbeFrames := by
          rcases h with h | h | h
          · exact absurd hfits h
          · exact h
          · exact absurd h hrows
        exact doneIsComplete_of_open halg hcap hfits hshort (by omega)
    · exact doneIsComplete_of_overflow halg hcap hfits

theorem doneIsComplete_oneRowEach : DoneIsComplete (.csim {}) (oneRowEach .algorithmA) :=
  (doneIsComplete_iff (.csim {}) (oneRowEach .algorithmA) rfl (by decide)).mpr
    (Or.inr (Or.inl (by decide)))

/-- A session with one row more than it has frames: a million frames of one row each. -/
def millionFrames : SessionInput where
  config := ⟨AlgorithmType.algorithmA.code, KeyType.int64.code, 0, 0, 1000001, 1⟩
  keyType := .int64
  innerFrames := []
  outerFrames := List.replicate 1000000 [(0, ⟨0, 1⟩)]
  keyType_eq := rfl
  innerCount_eq := rfl
  innerSizes := by simp
  outerSizes := by
    intro f hf
    rw [List.eq_of_mem_replicate hf]
    decide
  innerKeys := by simp
  outerKeys := fun _ _ => trivial

theorem length_flatten_replicate {α : Type} (n : Nat) (a : α) :
    (List.replicate n [a]).flatten.length = n := by
  simp

/-- After a million frames of one row each the kernel reports DONE, although one row is
missing. -/
theorem millionFrames_not_complete : ¬ DoneIsComplete (.csim {}) millionFrames := by
  have hlen : millionFrames.outerFrames.length = maxProbeFrames := List.length_replicate
  have hrows : millionFrames.outerFrames.flatten.length = maxProbeFrames :=
    length_flatten_replicate maxProbeFrames _
  refine not_doneIsComplete rfl (Nat.zero_le _) LinearHashTable.fits_nil hlen.ge ?_
  rw [List.take_of_length_le hlen.le, hrows]
  decide

end Linear

end FpgaHashJoin
