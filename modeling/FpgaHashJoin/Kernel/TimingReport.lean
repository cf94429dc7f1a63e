import FpgaHashJoin.Kernel.TimingAccounts

/-!
# What the TIMING frame reports

For the frames of a session the reads of the kernel are known, so that the agreement of the record
with the reads becomes one with the session: its frames, its rows and its pairs. The record is right
exactly for the sessions whose outer rows come in at most a million frames.
-/

namespace FpgaHashJoin

open Process EquiJoin KState

/-- The counters of the record `t` agree with the session, the reads `ins` and the frames `outs`.
The two byte counters wrap around. -/
structure Accounts (x : SessionInput) (ins : List (Site × Option UInt8)) (outs : List TxFrame)
    (t : TimingSummaryPayload) : Prop where
  bytesRx : t.bytesRx = UInt32.ofNat ins.length
  bytesTx : t.bytesTx = UInt32.ofNat (outs.flatMap TxFrame.bytes).length
  innerFrames : t.innerFrames.toNat = framesIn .innerData ins
  outerFrames : t.outerFrames.toNat = framesIn .outerData ins
  resultFrames : t.resultFrames.toNat = resultsOut outs
  ackFrames : t.ackFrames.toNat = acksOut outs + 1
  hashBuildInserts : t.hashBuildInserts.toNat = x.inner.length
  innerRows : t.innerRows.toNat = x.inner.length
  hashProbeLookups : t.hashProbeLookups.toNat = t.hashProbeHits.toNat + t.hashProbeMisses.toNat
  outerRows : t.outerRows = t.hashProbeLookups
  hashProbeHits : t.hashProbeHits.toNat = pairsOut outs
  matchedRows : t.matchedRows.toNat = pairsOut outs

/-! ## The reads of a session -/

section Reads

variable (w : KeyType) (type : MsgType) (msg : DataMsg)

theorem framesIn_tupleReads (t : InputTuple) : framesIn type (tupleReads w t) = 0 := by
  refine List.count_eq_zero.mpr fun hmem => ?_
  simp [tupleReads, tagged] at hmem

theorem framesIn_tuples (ts : List InputTuple) : framesIn type (ts.flatMap (tupleReads w)) = 0 := by
  induction ts with
  | nil => rfl
  | cons t ts ih => rw [List.flatMap_cons, framesIn_append, framesIn_tupleReads, ih]

theorem framesIn_headerReads (other : MsgType) (count : Nat) :
    framesIn type (headerReads other count) = if other = type then 1 else 0 := by
  simp [framesIn, headerReads, tagged, List.count_cons, LittleEndian.bytes16, MsgType.code_inj]

theorem framesIn_configure (p : ConfigurePayload) :
    framesIn type (HostFrame.configure p).reads = if MsgType.configure = type then 1 else 0 := by
  have hnone : framesIn type (tagged .config (configureBytes p)) = 0 :=
    List.count_eq_zero.mpr fun hmem => by simp [tagged] at hmem
  rw [HostFrame.reads, framesIn_append, framesIn_headerReads, hnone, Nat.add_zero]

/-- The reads of the DATA frames of one phase. -/
theorem framesIn_data (fs : List (List InputTuple)) :
    framesIn type ((fs.map (HostFrame.data msg w)).flatMap HostFrame.reads) =
      if msg.type = type then fs.length else 0 := by
  induction fs with
  | nil => simp [framesIn]
  | cons f fs ih =>
    rw [List.map_cons, List.flatMap_cons, framesIn_append, ih, HostFrame.reads, framesIn_append,
      framesIn_headerReads, framesIn_tuples, List.length_cons]
    split <;> omega

theorem tidBytesIn_dataFrames (fs : List (List InputTuple)) :
    tidBytesIn ((fs.map (HostFrame.data msg w)).flatMap HostFrame.reads) =
      6 * fs.flatten.length := by
  rw [List.flatMap_map]
  exact tidBytesIn_phaseReads msg w fs

theorem probeReads_data (fs : List (List InputTuple)) :
    ProbeReads ((fs.map (HostFrame.data .outer w)).flatMap HostFrame.reads) := by
  cases fs with
  | nil => exact Or.inl rfl
  | cons f fs => exact Or.inr ⟨_, rfl⟩

end Reads

/-- The first outer frame divides the reads in only one way. -/
theorem probeReads_unique {A B L M : List (Site × Option UInt8)} (hA : framesIn .outerData A = 0)
    (hL : framesIn .outerData L = 0) (hB : ProbeReads B) (hM : ProbeReads M)
    (h : L ++ M = A ++ B) : L = A ∧ M = B := by
  -- the longer of the two first parts would contain the header that starts the other's second part
  have hnot : ∀ {A C N : List (Site × Option UInt8)}, ProbeReads (C ++ N) →
      framesIn .outerData (A ++ C) = 0 → C = [] := by
    intro A C N hC hnone
    cases C with
    | nil => rfl
    | cons c C =>
      rcases hC with hnil | ⟨N', hcons⟩
      · simp at hnil
      · rw [List.cons_append, List.cons.injEq] at hcons
        rw [framesIn_append, hcons.1] at hnone
        simp [framesIn] at hnone
  rcases List.append_eq_append_iff.mp h with ⟨C, rfl, rfl⟩ | ⟨C, rfl, rfl⟩
  · obtain rfl := hnot hM hA
    simp
  · obtain rfl := hnot hB hL
    simp

/-! ## From CONFIGURE to the end -/

section Session

variable {x : SessionInput} {s s' : Session} {ins : List (Site × Option UInt8)}
  {outs : List TxFrame} {t : TimingSummaryPayload}

/-- The session variables after an accepted CONFIGURE of Algorithm A. -/
def Session.configured (s : Session) (p : ConfigurePayload) : Session :=
  (({ s.init with
    algorithm := p.algorithm
    keytype := p.keyType
    sessionId := p.sessionId
    innerTotal := p.innerCount.toNat
    outerTotal := p.outerCount.toNat
    timing := s.init.timing.onConfigure p.innerCount p.outerCount
    regs := { s.init.regs with resultCount := p.outerCount }
    K := 1
    outerSlotW := 0 }).setStatus .building).withTiming (·.onConfigureAck)

/-- The ACK of an accepted CONFIGURE. -/
def ConfigurePayload.acceptAck (p : ConfigurePayload) : StatusPayload where
  phase := Phase.building.code
  sessionId := p.sessionId
  credit := UInt16.ofNat rxCreditTuples

theorem configure_runs (p : ConfigurePayload)
    (hcheck : checkConfigure p.algorithm p.innerCount.toNat p.outerCount.toNat = .ok (1, 0)) :
    Runs (configure (.csim {}) s.init) (HostFrame.configure p).reads
      [.ack p.acceptAck] (.ret (s.configured p)) := by
  have haccept : Runs (accept (.csim {}) s.init p) []
      [.ack p.acceptAck] (.ret (s.configured p)) := by
    unfold accept
    simp only [hcheck]
    exact .send rfl (.refl _)
  have hread := (rxConfigure_runs p).seq_then haccept
  rw [HostFrame.reads, headerReads, List.cons_append, ← List.singleton_append]
  refine (rxByteGuarded_frame _ 0 _).seq_reads ((rxU16_runs .count _).seq_reads ?_)
  rw [if_neg (by decide), if_neg (by decide)]
  exact hread

/-- CONFIGURE takes sixteen bytes. -/
theorem kept_configured (p : ConfigurePayload) (ack : StatusPayload) :
    Kept ⟨p.innerCount.toNat, p.outerCount.toNat, 0, 0, 0⟩ (HostFrame.configure p).reads [.ack ack]
      (s.configured p) where
  counters := by
    have hlen : (HostFrame.configure p).reads.length = 16 := rfl
    have hbytes : bytesOut [.ack ack] = 15 := bytesOut_ack ack
    simp only [Account.tally, hlen, hbytes, framesIn_configure, UInt32.ofNat_toNat]
    rfl
  innerTotal := rfl
  outerTotal := rfl
  matched := rfl
  buffered := rfl
  results := Nat.le_refl _

/-- The kernel up to the start of the build phase. -/
theorem kernel_configures (p : ConfigurePayload)
    (halg : p.algorithm = AlgorithmType.algorithmA.code)
    (hcheck : checkConfigure p.algorithm p.innerCount.toNat p.outerCount.toNat = .ok (1, 0)) :
    ∃ s₀ : Session, Runs (hashJoinKernel (.csim {}) s) (HostFrame.configure p).reads
      [.ack p.acceptAck]
      (linearSession (.csim {}) (s₀.configured p) >>= afterLinear (.csim {})) := by
  refine ⟨{ s with regs := { s.regs with
    htCapacity := UInt32.ofNat htMaxRows
    rxBufCap := UInt32.ofNat rxCreditTuples } }, ?_⟩
  generalize hs₀ : { s with regs := { s.regs with
    htCapacity := UInt32.ofNat htMaxRows
    rxBufCap := UInt32.ofNat rxCreditTuples } } = s₀
  have hconf : (s₀.configured p).Configured .algorithmA
      ⟨p.sessionId, KeyType.ofCode p.keyType, p.innerCount.toNat, p.outerCount.toNat, 1, 0⟩ :=
    ⟨rfl, halg, rfl, rfl, rfl, rfl, rfl, rfl⟩
  have hrest : afterConfigure (.csim {}) (s₀.configured p) >>= nextSession (.csim {}) =
      linearSession (.csim {}) (s₀.configured p) >>= afterLinear (.csim {}) := by
    rw [afterConfigure_linear hconf]
    exact Proc.bind_ret _
  rw [← hrest, hashJoinKernel, hs₀]
  refine .tau rfl ?_
  show Runs (inLoop (kernelBody (.csim {})) .ret (kernelBody (.csim {}) s₀)) _ _ _
  rw [inLoop_kernelBody]
  exact (configure_runs (s := s₀) p hcheck).bind _

/-- **A completed session has a record that agrees with its reads and its frames.** -/
theorem session_ended (halg : x.config.algorithm = AlgorithmType.algorithmA.code)
    (hcap : x.inner.length ≤ htMaxRows) (hrun : Runs (hashJoinKernel (.csim {}) s) ins outs (.ret s'))
    (hins : ins.map Prod.snd <+: answers x.frames) :
    SessionEnded x.config.innerCount.toNat x.config.outerCount.toNat ins outs := by
  obtain ⟨s₀, hconf⟩ := kernel_configures (s := s) x.config halg 
    (x.checkConfigure_linear halg hcap)
  have hcmp : (HostFrame.configure x.config).reads.map Prod.snd <+: answers x.frames := by
    rw [HostFrame.map_snd_reads]
    exact ⟨_, rfl⟩
  obtain ⟨ins₂, outs₂, hrest, rfl, rfl⟩ := hconf.completed_after hrun
    (List.prefix_or_prefix_of_prefix hcmp hins)
  exact linearSession_ends (fun t ht => by simp at ht) (kept_configured x.config _) rfl rfl
    (Nat.le_refl _) ins₂ outs₂ s' hrest

/-! ## The reads of a completed session -/

theorem path_reads {b : Build} {st st' : KState} {es : List KEvent}
    {l : List (Site × Option UInt8)} {os : List KOut}
    (h : (kernelMachine b).Path st es l os st') : l = es.flatMap KEvent.reads := by
  induction h with
  | nil => rfl
  | cons _ _ ih =>
    rw [ih]
    rfl

/-- A completed run has taken the frames with which the machine ends. -/
theorem Plays.completed {fs : List HostFrame} {os : List KOut}
    (h : Plays (.csim {}) ([], .idle) fs os (endSession (.csim {})).2) (hfs : fs <+: x.frames)
    (hrun : Runs (hashJoinKernel (.csim {}) s) ins outs (.ret s'))
    (hins : ins.map Prod.snd <+: answers x.frames) :
    ins = fs.flatMap HostFrame.reads ∧ outs.flatMap TxFrame.obs = os := by
  obtain ⟨l, hpath⟩ := h.path
  obtain ⟨outs₀, p₀, hstart, hobs₀, hp₀⟩ := kernel_enters (.csim {}) s
  obtain ⟨outs₁, q, hplay, hobs, hq⟩ := hpath.runs hp₀
  obtain ⟨s₁, rfl⟩ := returned_of_ended (b := .csim {}) hq rfl
  have hlabel : l = fs.flatMap HostFrame.reads := by
    rw [path_reads hpath, List.flatMap_map]
    rfl
  have hvals : l.map Prod.snd = answers fs := by rw [hpath.vals, ← vals_frames]; rfl
  have hcmp := List.prefix_or_prefix_of_prefix (answers_mono hfs) hins
  rw [← hvals] at hcmp
  obtain ⟨hl, ho⟩ := (hstart.trans hplay).completed_unique hrun hcmp
  refine ⟨hl.symm.trans hlabel, ?_⟩
  rw [← ho, List.flatMap_append]
  exact (congrArg₂ (· ++ ·) hobs₀ hobs)

theorem timing_obs (ht : .timing t ∈ outs) : KOut.timing ∈ outs.flatMap TxFrame.obs :=
  List.mem_flatMap.mpr ⟨_, ht, List.mem_singleton.mpr rfl⟩

theorem obs_final (O : List TxFrame) (st : StatusPayload) :
    (O ++ [TxFrame.timing t, TxFrame.status st]).flatMap TxFrame.obs =
      O.flatMap TxFrame.obs ++ [KOut.timing] ++ [KOut.status st] := by
  simp [TxFrame.obs]

/-- A session that sends a record has been accepted, and its table could be built. -/
theorem fits_of_timed (halg : x.config.algorithm = AlgorithmType.algorithmA.code)
    (hrun : Runs (hashJoinKernel (.csim {}) s) ins outs (.ret s'))
    (hins : ins.map Prod.snd <+: answers x.frames) (ht : .timing t ∈ outs) :
    x.inner.length ≤ htMaxRows ∧ LinearHashTable.fits x.inner := by
  have hobs := timing_obs ht
  by_cases hcap : x.inner.length ≤ htMaxRows
  · refine ⟨hcap, ?_⟩
    by_contra hfits
    obtain ⟨done, todo, acks, hsplit, hacks, hplay⟩ := linear_overflow (b := .csim {}) halg hcap hfits
    have hpart : .configure x.config :: done.map (HostFrame.data .inner x.keyType) <+: x.frames := by
      refine ⟨todo.map (.data .inner x.keyType) ++ x.outerFrames.map (.data .outer x.keyType), ?_⟩
      simp [SessionInput.frames, hsplit]
    obtain ⟨-, hos⟩ := hplay.completed hpart hrun hins
    rw [hos] at hobs
    rcases List.mem_append.mp hobs with hmem | hmem
    · obtain ⟨a, ha, -⟩ := hacks _ hmem
      cases ha
    · simp at hmem
  · exfalso
    have hcheck : checkConfigure x.config.algorithm x.config.innerCount.toNat
        x.config.outerCount.toNat = .error .overflow := by
      have hcount : x.config.innerCount.toNat = x.inner.length := x.innerCount_eq
      rw [checkConfigure, if_pos halg, if_pos (by omega)]
    have hstep : step (.csim {}) .idle (.frame (.configure x.config)) =
        some (.emit [.error FpgaError.overflow.code] (endSession (.csim {}))) := by
      simp [step, configureStep, hcheck]
    have hplay := Plays.cons hstep ((Plays.nil (.csim {}) _))
    obtain ⟨-, hos⟩ := Plays.completed (x := x) hplay ⟨_, rfl⟩ hrun hins
    rw [hos] at hobs
    simp [Reaction.emit, endSession] at hobs

/-! ## The record against the session -/

section Closed

variable {nI nO n k : Nat} {L₁ : List (Site × Option UInt8)} {a : Account} {st : StatusPayload}

/-- The rows that the kernel has taken are those of the frames. -/
theorem Closed.rows (h : Closed nI nO n L₁ ins outs t a st) (hrows : tidBytesIn L₁ = 6 * n)
    (hnone : framesIn .outerData L₁ = 0) (hins : ins = (x.framesUpTo k).flatMap HostFrame.reads) :
    n = x.inner.length ∧ a.hits + a.misses = min nO (x.outerFrames.take k).flatten.length := by
  obtain ⟨M, r, hsplit, hM, htids, hsum⟩ := h.probed.reads
  rw [hins, SessionInput.framesUpTo, List.flatMap_cons, List.flatMap_append,
    ← List.append_assoc] at hsplit
  obtain ⟨rfl, rfl⟩ := probeReads_unique hnone (by
    rw [framesIn_append, framesIn_configure, framesIn_data]
    rfl) hM (probeReads_data _ _) hsplit
  rw [tidBytesIn_append, tidBytesIn_dataFrames] at hrows
  rw [tidBytesIn_dataFrames] at htids
  have hzero : tidBytesIn (HostFrame.configure x.config).reads = 0 := rfl
  have hinner : x.inner.length = x.innerFrames.flatten.length := rfl
  constructor
  · omega
  · rw [hsum]
    omega

/-- The record of a session that reports the rows it has taken. -/
theorem Closed.accounts (h : Closed nI nO n L₁ ins outs t a st)
    (hins : ins = (x.framesUpTo k).flatMap HostFrame.reads) (hcap : x.inner.length ≤ htMaxRows)
    (hk : k ≤ maxProbeFrames) (hnO : nO < 2 ^ 32) (hn : n = x.inner.length)
    (hle : a.hits + a.misses ≤ nO) (hinner : a.innerTotal = n)
    (houter : a.outerTotal = a.hits + a.misses) (hpairs : pairsOut outs = a.hits) :
    Accounts x ins outs t := by
  have hcounters := h.counters
  have hexact : ∀ {c : UInt32} {m : Nat}, c = UInt32.ofNat m → m < 2 ^ 32 → c.toNat = m := by
    rintro _ m rfl hm
    exact UInt32.toNat_ofNat_of_lt' hm
  have hframes : framesIn .innerData ins = x.innerFrames.length ∧
      framesIn .outerData ins = (x.outerFrames.take k).length := by
    rw [hins, SessionInput.framesUpTo, List.flatMap_cons, List.flatMap_append]
    simp only [framesIn_append, framesIn_configure, framesIn_data]
    simp [DataMsg.type]
  have hfew : x.innerFrames.length ≤ x.inner.length :=
    Batching.length_le_flatten x.innerFrames fun f hf => (x.innerSizes f hf).1
  have htake : (x.outerFrames.take k).length ≤ k := List.length_take_le _ _
  have hmax : maxProbeFrames = 1000000 := rfl
  have hacks := h.acks
  have hresults := h.results
  rw [htMaxRows_eq] at hcap
  rw [hframes.1, hframes.2] at hacks
  have hins' : a.inserts = x.inner.length := h.inserts.trans hn
  refine ⟨congrArg Counters.bytesRx hcounters, congrArg Counters.bytesTx hcounters,
    hexact (congrArg Counters.innerFrames hcounters) (by omega),
    hexact (congrArg Counters.outerFrames hcounters) (by omega),
    hexact (congrArg Counters.resultFrames hcounters) (by omega), ?_, ?_, ?_, ?_, ?_, ?_, ?_⟩
  · have hack : t.ackFrames = UInt32.ofNat (acksOut outs + 1) := by
      rw [UInt32.ofNat_add]
      exact congrArg Counters.ackFrames hcounters
    exact hexact hack (by omega)
  · rw [← hins']
    exact hexact (congrArg Counters.hashBuildInserts hcounters) (by omega)
  · rw [← hn, ← hinner]
    exact hexact (congrArg Counters.innerRows hcounters) (by omega)
  · have hlookups := hexact (congrArg Counters.hashProbeLookups hcounters) (by omega)
    have hhits := hexact (congrArg Counters.hashProbeHits hcounters) (by omega)
    have hmisses := hexact (congrArg Counters.hashProbeMisses hcounters) (by omega)
    rw [show t.hashProbeLookups.toNat = _ from hlookups, show t.hashProbeHits.toNat = _ from hhits,
      show t.hashProbeMisses.toNat = _ from hmisses]
  · have hrows : t.outerRows = UInt32.ofNat a.outerTotal := congrArg Counters.outerRows hcounters
    rw [hrows, houter]
    exact (congrArg Counters.hashProbeLookups hcounters).symm
  · rw [hpairs]
    exact hexact (congrArg Counters.hashProbeHits hcounters) (by omega)
  · rw [hpairs]
    exact hexact h.matchedRows (by omega)

/-- A record that reports more outer rows than have been probed is wrong. -/
theorem Closed.not_accounts (h : Closed nI nO n L₁ ins outs t a st) (hnO : nO < 2 ^ 32)
    (houter : a.outerTotal = nO) (hless : a.hits + a.misses < nO) : ¬ Accounts x ins outs t := by
  intro hacc
  have hrows : t.outerRows = UInt32.ofNat a.outerTotal :=
    congrArg Counters.outerRows h.counters
  have hlookups : t.hashProbeLookups = UInt32.ofNat (a.hits + a.misses) :=
    congrArg Counters.hashProbeLookups h.counters
  have heq := hacc.outerRows
  rw [hrows, hlookups, houter] at heq
  have hnat := congrArg UInt32.toNat heq
  rw [UInt32.toNat_ofNat_of_lt' hnO, UInt32.toNat_ofNat_of_lt' (hless.trans hnO)] at hnat
  omega

end Closed

/-- The outer rows in the frames behind the bound. -/
theorem SessionInput.rows_beyond (x : SessionInput) {k : Nat} (hk : k < x.outerFrames.length) :
    (x.outerFrames.take k).flatten.length < x.outer.length := by
  have hrest : (x.outerFrames.drop k).length ≤ (x.outerFrames.drop k).flatten.length :=
    Batching.length_le_flatten _ fun f hf => (x.outerSizes f (List.mem_of_mem_drop hf)).1
  have hsum : x.outer.length =
      (x.outerFrames.take k).flatten.length + (x.outerFrames.drop k).flatten.length := by
    rw [← List.length_append, ← List.flatten_append, List.take_append_drop]
    rfl
  rw [List.length_drop] at hrest
  omega

/-- All frames are taken: the record is right. -/
theorem accounts_of_few (halg : x.config.algorithm = AlgorithmType.algorithmA.code)
    (houter : x.config.outerCount.toNat = x.outer.length)
    (hrun : Runs (hashJoinKernel (.csim {}) s) ins outs (.ret s'))
    (hins : ins.map Prod.snd <+: answers x.frames) (ht : .timing t ∈ outs)
    (hfew : x.outerFrames.length ≤ maxProbeFrames) : Accounts x ins outs t := by
  obtain ⟨hcap, hfits⟩ := fits_of_timed halg hrun hins ht
  obtain ⟨n, L₁, a, st, hrows, hnone, hclosed⟩ := session_ended halg hcap hrun hins t ht
  obtain ⟨pre, processed, -, -, hplay⟩ := linear_plays (b := .csim {}) halg hcap hfits houter hfew
  obtain ⟨hreads, -⟩ := hplay.completed (List.prefix_refl _) hrun hins
  have hframes : x.frames = x.framesUpTo x.outerFrames.length := by
    rw [SessionInput.framesUpTo, List.take_length, SessionInput.frames]
  rw [hframes] at hreads
  obtain ⟨hn, hsum⟩ := hclosed.rows hrows hnone hreads
  have hall : (x.outerFrames.take x.outerFrames.length).flatten.length = x.outer.length := by
    rw [List.take_length]
    rfl
  rw [hall, ← houter, min_self] at hsum
  have hlt := x.config.outerCount.toNat_lt
  have hcount : x.config.innerCount.toNat = x.inner.length := x.innerCount_eq
  rcases hclosed.place with ⟨hinner, hout, hpairs, -⟩ | ⟨hinner, hout, hpairs, hmore⟩
  · exact hclosed.accounts hreads hcap hfew hlt hn hsum.le hinner hout hpairs
  · -- behind the loop: there was nothing to probe
    have hzero : x.config.outerCount.toNat = 0 := by omega
    exact hclosed.accounts hreads hcap hfew hlt hn hsum.le (by omega) (by omega) (by omega)

/-- The bound cuts the session short: the record is wrong. -/
theorem not_accounts_of_many (halg : x.config.algorithm = AlgorithmType.algorithmA.code)
    (houter : x.config.outerCount.toNat = x.outer.length)
    (hrun : Runs (hashJoinKernel (.csim {}) s) ins outs (.ret s'))
    (hins : ins.map Prod.snd <+: answers x.frames) (ht : .timing t ∈ outs)
    (hmany : maxProbeFrames < x.outerFrames.length) : ¬ Accounts x ins outs t := by
  obtain ⟨hcap, hfits⟩ := fits_of_timed halg hrun hins ht
  obtain ⟨n, L₁, a, st, hrows, hnone, hclosed⟩ := session_ended halg hcap hrun hins t ht
  have hbeyond := x.rows_beyond hmany
  have htaken : (x.outerFrames.take maxProbeFrames).length ≤
      (x.outerFrames.take maxProbeFrames).flatten.length :=
    Batching.length_le_flatten _ fun f hf => (x.outerSizes f (List.mem_of_mem_take hf)).1
  rw [List.length_take] at htaken
  rw [← houter] at hbeyond
  obtain ⟨pre, matched, -, -, -, hplay⟩ := linear_cut (b := .csim {}) halg hcap hfits hmany.le hbeyond
  obtain ⟨hreads, hobs⟩ := hplay.completed (x.framesUpTo_le _) hrun hins
  obtain ⟨-, hsum⟩ := hclosed.rows hrows hnone hreads
  have hlt := x.config.outerCount.toNat_lt
  have hmax : maxProbeFrames = 1000000 := rfl
  rcases hclosed.place with ⟨-, -, -, hst⟩ | ⟨-, hout, -, -⟩
  · -- a record inside the loop comes with the rows in the STATUS, and there they are not
    exfalso
    obtain ⟨O₀, rfl, -⟩ := hclosed.sent
    rw [obs_final, doneStatus] at hobs
    obtain ⟨-, hlast⟩ := List.append_inj' hobs rfl
    have hzero : st.rowsProcessed = UInt32.ofNat 0 := by
      rw [KOut.status.inj (List.singleton_injective hlast)]
    rw [hst] at hzero
    have hnat := congrArg UInt32.toNat hzero
    rw [UInt32.toNat_ofNat_of_lt' (show a.hits + a.misses < 2 ^ 32 by omega)] at hnat
    have hnone' : (UInt32.ofNat 0).toNat = 0 := rfl
    omega
  · exact hclosed.not_accounts hlt hout (by omega)

/-- A session that the machine ends with a record has a run that sends it. -/
theorem Plays.timed {fs : List HostFrame} {os : List KOut}
    (h : Plays (.csim {}) ([], .idle) fs os (endSession (.csim {})).2) (hfs : fs <+: x.frames)
    (htiming : .timing ∈ os) :
    ∃ ins outs s' t, Runs (hashJoinKernel (.csim {}) s) ins outs (.ret s') ∧
      ins.map Prod.snd <+: answers x.frames ∧ .timing t ∈ outs := by
  obtain ⟨outs, q, ⟨⟨ins, hrun, hvals⟩, -⟩, rfl, hq⟩ := h.settles s
  obtain ⟨s', rfl⟩ := returned_of_ended hq rfl
  obtain ⟨f, hf, hobs⟩ := List.mem_flatMap.mp htiming
  cases f with
  | timing t => exact ⟨ins, outs, s', t, hrun, by rw [hvals]; exact answers_mono hfs, hf⟩
  | ack => simp [TxFrame.obs] at hobs
  | status => simp [TxFrame.obs] at hobs
  | error => simp [TxFrame.obs] at hobs
  | results => simp [TxFrame.obs] at hobs
  | debug => simp [TxFrame.obs] at hobs

end Session

/-- **The record of a completed session is right exactly if the outer rows come in at most a million
frames.** A session with more frames is completed behind the probe loop, with the outer rows of
CONFIGURE although not all of them have been probed. -/
theorem timing_accounts_iff (x : SessionInput)
    (halg : x.config.algorithm = AlgorithmType.algorithmA.code)
    (houter : x.config.outerCount.toNat = x.outer.length) {s s' : Session}
    {ins : List (Site × Option UInt8)} {outs : List TxFrame} {t : TimingSummaryPayload}
    (hrun : Runs (hashJoinKernel (.csim {}) s) ins outs (.ret s'))
    (hins : ins.map Prod.snd <+: answers x.frames) (ht : .timing t ∈ outs) :
    Accounts x ins outs t ↔ x.outerFrames.length ≤ 1000000 := by
  constructor
  · intro hacc
    by_contra hmany
    exact not_accounts_of_many halg houter hrun hins ht (not_le.mp hmany) hacc
  · intro hfew
    exact accounts_of_few halg houter hrun hins ht hfew

theorem timing_accounts_iff_oneRowEach :
    ∃ ins outs s' t, Runs (hashJoinKernel (.csim {}) default) ins outs (.ret s') ∧
      .timing t ∈ outs ∧ Accounts (oneRowEach .algorithmA) ins outs t := by
  obtain ⟨pre, processed, -, -, hplay⟩ := linear_plays (b := .csim {}) (x := oneRowEach .algorithmA)
    rfl (by decide) (by decide) rfl (by decide)
  obtain ⟨ins, outs, s', t, hrun, hins, ht⟩ := hplay.timed (s := default) (List.prefix_refl _)
    (by simp)
  exact ⟨ins, outs, s', t, hrun, ht,
    (timing_accounts_iff (oneRowEach .algorithmA) rfl rfl hrun hins ht).mpr (by decide)⟩

/-- One outer row in each of a million and one frames. -/
def manyFrames : SessionInput where
  config := ⟨AlgorithmType.algorithmA.code, KeyType.int64.code, 0, 0, 1000001, 1⟩
  keyType := .int64
  innerFrames := []
  outerFrames := List.replicate 1000001 [(0, ⟨0, 1⟩)]
  keyType_eq := millionFrames.keyType_eq
  innerCount_eq := millionFrames.innerCount_eq
  innerSizes := millionFrames.innerSizes
  outerSizes := by
    intro f hf
    rw [List.eq_of_mem_replicate hf]
    decide
  innerKeys := millionFrames.innerKeys
  outerKeys := fun _ _ => trivial

/-- A session with one frame too many reports an outer row that it has not probed. -/
theorem manyFrames_not_accounted :
    ∃ ins outs s' t, Runs (hashJoinKernel (.csim {}) default) ins outs (.ret s') ∧
      ins.map Prod.snd <+: answers manyFrames.frames ∧ .timing t ∈ outs ∧
      ¬ Accounts manyFrames ins outs t := by
  have hlen : manyFrames.outerFrames.length = 1000001 := List.length_replicate
  have hrows : manyFrames.config.outerCount.toNat = manyFrames.outer.length :=
    (length_flatten_replicate 1000001 _).symm
  have hmany : maxProbeFrames < manyFrames.outerFrames.length := by
    rw [hlen]
    decide
  have hbeyond := manyFrames.rows_beyond hmany
  rw [← hrows] at hbeyond
  obtain ⟨pre, matched, -, -, htimed, hplay⟩ := linear_cut (b := .csim {}) (x := manyFrames) rfl
    (Nat.zero_le _) LinearHashTable.fits_nil hmany.le hbeyond
  obtain ⟨ins, outs, s', t, hrun, hins, ht⟩ := hplay.timed (s := default)
    (manyFrames.framesUpTo_le _) (List.mem_append_left _ htimed)
  exact ⟨ins, outs, s', t, hrun, hins, ht, not_accounts_of_many rfl hrows hrun hins ht hmany⟩

end FpgaHashJoin
