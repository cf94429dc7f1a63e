import FpgaHashJoin.Kernel.Protocol
import FpgaHashJoin.StoreWhile

/-!
# The parts of an Algorithm A session

What the loops of the kernel do between the reads: inserting the tuples of a frame, probing
with them, sending acknowledgements and results. `Sends p os a` says that the part `p` runs
to the value `a` without reading and that the host sees `os` of what it sends.

The representation predicates `BuildRep` and `ProbeRep` connect the variables of the two
loops with the rows of the protocol machine.
-/

namespace FpgaHashJoin

open Process EquiJoin GraceHashEngine KState StoreWhile

/-! ## Parts that only send -/

section Sends

variable {α β : Type}

def Sends (p : KProc α) (os : List KOut) (a : α) : Prop :=
  ∃ outs, Runs p [] outs (.ret a) ∧ outs.flatMap TxFrame.obs = os

theorem Sends.pure (a : α) : Sends (pure a) [] a := ⟨[], .refl _, rfl⟩

theorem Sends.bind {p : KProc α} {f : α → KProc β} {os os' : List KOut} {a : α} {a' : β}
    (h : Sends p os a) (h' : Sends (f a) os' a') : Sends (p >>= f) (os ++ os') a' := by
  obtain ⟨outs, hrun, rfl⟩ := h
  obtain ⟨outs', hrun', rfl⟩ := h'
  exact ⟨outs ++ outs', hrun.seq_silent hrun', List.flatMap_append⟩

/-- A first part that the host does not see. -/
theorem Sends.bind_quiet {p : KProc α} {f : α → KProc β} {os : List KOut} {a : α} {a' : β}
    (h : Sends p [] a) (h' : Sends (f a) os a') : Sends (p >>= f) os a' :=
  h.bind h'

theorem Sends.then_pure {p : KProc α} {os : List KOut} {a : α} (h : Sends p os a) (g : α → β) :
    Sends (p >>= fun a => Pure.pure (g a)) os (g a) := by
  obtain ⟨outs, hrun, rfl⟩ := h
  exact ⟨outs, hrun.seq_pure g, rfl⟩

/-- Run the part first, then say what holds of its value. -/
theorem Sends.out {p : KProc α} {os : List KOut} {a : α} {P : α → Prop} (h : Sends p os a)
    (hP : P a) : ∃ a, Sends p os a ∧ P a :=
  ⟨a, h, hP⟩

theorem Sends.put (f : TxFrame) : Sends (Proc.put f) f.obs () :=
  ⟨[f], Runs.put f, by simp⟩

theorem Sends.require {c : Prop} [Decidable c] (h : c) : Sends (Proc.require c) [] () :=
  ⟨[], Runs.require h, rfl⟩

theorem Sends.emitDebug (b : Build) (level : DbgLevel) (code : DbgCode) (value : UInt32) :
    Sends (emitDebug b level code value) [] () := by
  unfold FpgaHashJoin.emitDebug
  split
  · exact Sends.put (.debug level.code code.code value)
  · exact Sends.pure ()

theorem Sends.when_quiet {c : Prop} [Decidable c] {p : KProc Unit} (h : Sends p [] ()) :
    Sends (Proc.when c p) [] () := by
  unfold Proc.when
  split
  · exact h
  · exact Sends.pure ()

theorem Sends.forRange_succ {n : Nat} {body : α → Nat → KProc α} {s s' s'' : α}
    {os os' : List KOut} (h : Sends (Proc.forRange n body s) os s')
    (h' : Sends (body s' n) os' s'') : Sends (Proc.forRange (n + 1) body s) (os ++ os') s'' := by
  obtain ⟨outs, hrun, rfl⟩ := h
  obtain ⟨outs', hrun', rfl⟩ := h'
  exact ⟨outs ++ outs', Runs.forRange_succ hrun hrun', List.flatMap_append⟩

/-- A part that first reads `ins` without sending anything, then sends. -/
def Takes (p : KProc α) (ins : List (Site × Option UInt8)) (os : List KOut) (a : α) : Prop :=
  ∃ mid, Runs p ins [] mid ∧ Sends mid os a

theorem Sends.takes {p : KProc α} {os : List KOut} {a : α} (h : Sends p os a) :
    Takes p [] os a :=
  ⟨p, .refl p, h⟩

theorem Takes.after {p : KProc α} {f : α → KProc β} {ins ins' : List (Site × Option UInt8)}
    {os : List KOut} {a : α} {a' : β} (h : Runs p ins [] (.ret a)) (h' : Takes (f a) ins' os a') :
    Takes (p >>= f) (ins ++ ins') os a' := by
  obtain ⟨mid, hread, hsend⟩ := h'
  exact ⟨mid, h.seq_reads hread, hsend⟩

/-- Read everything, then send. -/
theorem Takes.intro {p : KProc α} {f : α → KProc β} {ins : List (Site × Option UInt8)}
    {os : List KOut} {a : α} {a' : β} (h : Runs p ins [] (.ret a)) (h' : Sends (f a) os a') :
    Takes (p >>= f) ins os a' :=
  ⟨f a, h.bind f, h'⟩

theorem Takes.bind {p : KProc α} {f : α → KProc β} {ins : List (Site × Option UInt8)}
    {os os' : List KOut} {a : α} {a' : β} (h : Takes p ins os a) (h' : Sends (f a) os' a') :
    Takes (p >>= f) ins (os ++ os') a' := by
  obtain ⟨mid, hread, hsend⟩ := h
  exact ⟨mid >>= f, hread.bind f, hsend.bind h'⟩

/-- The header of a frame is read first. -/
theorem Takes.header {f : UInt8 → UInt16 → KProc α} {ins : List (Site × Option UInt8)}
    {os : List KOut} {a : α} (type : MsgType) (count : Nat)
    (h : Takes (f type.code (UInt16.ofNat count)) ins os a) :
    Takes (rxByte .msgType >>= fun msgType => rxU16 .count >>= f msgType)
      (headerReads type count ++ ins) os a := by
  rw [headerReads, List.cons_append, ← List.singleton_append]
  have hread : Runs (rxByte .msgType) [(.msgType, some type.code)] [] (.ret type.code) :=
    Runs.read _ _
  exact Takes.after hread (Takes.after (rxU16_runs .count _) h)

end Sends

/-! ## Sessions and buffers -/

/-- The session is running with the given algorithm and configuration. The definition only
mentions the variables that CONFIGURE sets, so it carries over to any change of the others. -/
def Session.Configured (s : Session) (algorithm : AlgorithmType) (c : Conf) : Prop :=
  s.sessionDone = false ∧ s.algorithm = algorithm.code ∧ s.sessionId = c.sessionId ∧
    KeyType.ofCode s.keytype = c.keyType ∧ s.innerTotal = c.innerTotal ∧
    s.outerTotal = c.outerTotal ∧ s.K = c.K ∧ s.outerSlotW = c.outerSlotW

namespace Session.Configured

variable {s : Session} {algorithm : AlgorithmType} {c : Conf} (h : s.Configured algorithm c)

include h

theorem running : s.sessionDone = false := h.1
theorem algorithm_eq : s.algorithm = algorithm.code := h.2.1
theorem sessionId : s.sessionId = c.sessionId := h.2.2.1
theorem keyType : KeyType.ofCode s.keytype = c.keyType := h.2.2.2.1
theorem innerTotal : s.innerTotal = c.innerTotal := h.2.2.2.2.1
theorem outerTotal : s.outerTotal = c.outerTotal := h.2.2.2.2.2.1
theorem K : s.K = c.K := h.2.2.2.2.2.2.1
theorem outerSlotW : s.outerSlotW = c.outerSlotW := h.2.2.2.2.2.2.2

end Session.Configured

/-- The receive buffers start with the given tuples. -/
def Session.Buffered (s : Session) (ts : List InputTuple) : Prop :=
  ∀ i t, ts[i]? = some t → s.rxKeyBuf i = t.key ∧ s.rxTidBuf i = t.tid

theorem rxTuple_congr {keytype : UInt8} {w : KeyType} (h : KeyType.ofCode keytype = w) :
    rxTuple keytype = rxTuple w.code := by
  have hkey : rxKey keytype = rxKey w.code := by
    by_cases hk : keytype = KeyType.int64.code
    · rw [← h, hk, KeyType.ofCode_code]
    · have hw : w = .int32 := by rw [← h, KeyType.ofCode, if_neg hk]
      rw [hw, rxKey, if_neg hk]
      rfl
  simp only [rxTuple, hkey]

/-- **Reading a batch fills the receive buffers with its tuples.** -/
theorem rxBatch_runs {s : Session} {w : KeyType} (hw : KeyType.ofCode s.keytype = w)
    {ts : List InputTuple} (hlen : ts.length ≤ rxBufTuples) :
    ∃ keys tids, Runs (rxBatch ts.length s) (ts.flatMap (tupleReads w)) []
        (.ret { s with rxKeyBuf := keys, rxTidBuf := tids }) ∧
      { s with rxKeyBuf := keys, rxTidBuf := tids }.Buffered (ts.map w.wire) := by
  induction ts using List.reverseRecOn with
  | nil =>
    refine ⟨s.rxKeyBuf, s.rxTidBuf, .refl _, ?_⟩
    intro i t ht
    simp at ht
  | append_singleton ts t ih =>
    rw [List.length_append, List.length_singleton] at hlen
    obtain ⟨keys, tids, hrun, hbuf⟩ := ih (by omega)
    refine ⟨Function.update keys ts.length (w.wire t).key,
      Function.update tids ts.length (w.wire t).tid, ?_, ?_⟩
    · rw [List.length_append, List.length_singleton, List.flatMap_append, List.flatMap_singleton]
      refine Runs.forRange_succ hrun ?_
      have hread : Runs (rxTuple s.keytype) (tupleReads w t) [] (.ret (w.wire t)) := by
        rw [rxTuple_congr hw]
        exact rxTuple_runs w t
      exact hread.seq_then ((Runs.require (by omega)).seq_pure _)
    · intro i u hu
      by_cases hi : i = ts.length
      · subst hi
        obtain rfl : w.wire t = u := by simpa using hu
        simp
      · have hold : (ts.map w.wire)[i]? = some u := by
          have hlt : i < ts.length + 1 := by simpa using (List.getElem?_eq_some_iff.mp hu).1
          rw [List.map_append, List.getElem?_append_left (by simp; omega)] at hu
          exact hu
        simpa [hi] using hbuf i u hold

/-! ## Build phase -/

/-- The variables of the build loop when the rows `inner` have been inserted. -/
structure BuildRep (v : BuildVars) (c : Conf) (frame pending : Nat) (inner : List InputTuple) :
    Prop where
  conf : v.s.Configured .algorithmA c
  frame_eq : v.frame = frame
  pending_eq : v.buildAckPendingFrames = pending
  received : v.innerReceived = inner.length
  table : v.s.ht.Holds inner
  noPairs : v.s.resultBufCnt = 0
  noMatch : v.s.matched = 0

theorem prefixClosed_fits : PrefixClosed LinearHashTable.fits :=
  fun hle h => LinearHashTable.fits_sublist h hle.sublist

section BuildPhase

variable {v : BuildVars} {c : Conf} {frame pending : Nat} {inner ts : List InputTuple}

/-- Inserting the next tuple of the receive buffers. A tuple that does not fit leaves the table as
it is. -/
theorem innerBatch_sends (hv : BuildRep v c frame pending inner) {i : Nat} {t : InputTuple}
    (ht : v.s.rxKeyBuf i = t.key ∧ v.s.rxTidBuf i = t.tid) (hi : i < rxBufTuples) :
    if LinearHashTable.fits (inner ++ [t]) then
      ∃ v', Sends (innerBatch v i) [] v' ∧ BuildRep v' c frame pending (inner ++ [t]) ∧
        v'.s.rxKeyBuf = v.s.rxKeyBuf ∧ v'.s.rxTidBuf = v.s.rxTidBuf
    else ∃ v', Sends (innerBatch v i) [.error FpgaError.overflow.code] v' ∧
      v'.s.sessionDone = true ∧ v'.s.ht.Holds inner := by
  have hrun : v.s.sessionDone = false := hv.conf.running
  have hbuild := hv.table.build t
  by_cases hfits : LinearHashTable.fits (inner ++ [t])
  · rw [if_pos hfits] at hbuild ⊢
    obtain ⟨ht', steps, heq, hholds⟩ := hbuild
    apply Sends.out
    · rw [innerBatch, hrun, ht.1, ht.2, heq]
      simp only [Bool.false_eq_true, if_false, ne_eq, not_true_eq_false]
      exact (Sends.require hi).bind_quiet (Sends.pure _)
    · exact ⟨⟨hv.conf, hv.frame_eq, hv.pending_eq, by simp [hv.received], hholds, hv.noPairs,
        hv.noMatch⟩, rfl, rfl⟩
  · rw [if_neg hfits] at hbuild ⊢
    obtain ⟨steps, heq⟩ := hbuild
    apply Sends.out
    · rw [innerBatch, hrun, ht.1, ht.2, heq]
      simp only [Bool.false_eq_true, if_false, ne_eq, reduceCtorEq, not_false_eq_true, if_true]
      exact (Sends.require hi).bind_quiet ((Sends.put _).bind (Sends.pure _))
    · exact ⟨rfl, hv.table⟩

/-- The insertion loop: either all rows fit, or the first row that does not ends the
session. -/
theorem innerBatches_sends (hv : BuildRep v c frame pending inner) (hbuf : v.s.Buffered ts)
    (hlen : ts.length ≤ rxBufTuples) {n : Nat} (hn : n ≤ ts.length) :
    if LinearHashTable.fits (inner ++ ts.take n) then
      ∃ v', Sends (Proc.forRange n innerBatch v) [] v' ∧
        BuildRep v' c frame pending (inner ++ ts.take n) ∧
        v'.s.rxKeyBuf = v.s.rxKeyBuf ∧ v'.s.rxTidBuf = v.s.rxTidBuf
    else ∃ v', Sends (Proc.forRange n innerBatch v) [.error FpgaError.overflow.code] v' ∧
      v'.s.sessionDone = true ∧
      v'.s.ht.Holds (storeWhile LinearHashTable.fits inner (ts.take n)) := by
  induction n with
  | zero =>
    have hfits : LinearHashTable.fits (inner ++ ts.take 0) := by simpa using hv.table.fits
    rw [if_pos hfits]
    exact ⟨v, Sends.pure v, by simpa using hv, rfl, rfl⟩
  | succ n ih =>
    have ih := ih (by omega)
    have hrows : ts.take (n + 1) = ts.take n ++ [ts[n]] := (List.take_append_getElem _).symm
    have htake : inner ++ ts.take (n + 1) = inner ++ ts.take n ++ [ts[n]] := by
      rw [List.append_assoc, hrows]
    by_cases hfits : LinearHashTable.fits (inner ++ ts.take n)
    · rw [if_pos hfits] at ih
      obtain ⟨v', hsend, hv', hkeys, htids⟩ := ih
      have ht : v'.s.rxKeyBuf n = ts[n].key ∧ v'.s.rxTidBuf n = ts[n].tid := by
        rw [hkeys, htids]
        exact hbuf n _ (List.getElem?_eq_getElem _)
      have hnext := innerBatch_sends hv' ht (by omega)
      rw [htake]
      by_cases hfits' : LinearHashTable.fits (inner ++ ts.take n ++ [ts[n]])
      · rw [if_pos hfits'] at hnext ⊢
        obtain ⟨v'', hsend', hv'', hkeys', htids'⟩ := hnext
        exact ⟨v'', hsend.forRange_succ hsend', hv'', hkeys'.trans hkeys, htids'.trans htids⟩
      · rw [if_neg hfits'] at hnext ⊢
        obtain ⟨v'', hsend', hdone, hholds⟩ := hnext
        rw [hrows, storeWhile_snoc_full prefixClosed_fits hfits hfits']
        exact ⟨v'', hsend.forRange_succ hsend', hdone, hholds⟩
    · rw [if_neg hfits] at ih
      obtain ⟨v', hsend, hdone, hholds⟩ := ih
      have hfits' : ¬ LinearHashTable.fits (inner ++ ts.take (n + 1)) := by
        intro h
        refine hfits (LinearHashTable.fits_sublist h ?_)
        rw [htake]
        exact List.sublist_append_left _ _
      rw [if_neg hfits', hrows, storeWhile_snoc_stuck prefixClosed_fits hv.table.fits hfits]
      refine ⟨v', ?_, hdone, hholds⟩
      have hskip : Sends (innerBatch v' n) [] v' := by
        rw [innerBatch, hdone]
        exact Sends.pure v'
      exact hsend.forRange_succ hskip

/-- The acknowledgement of a build frame. -/
theorem buildAck_sends (hv : BuildRep v c frame pending inner) :
    if ackBatchFrames ≤ pending + 1 ∨ c.innerTotal ≤ inner.length then
      ∃ v', Sends (buildAck v) [dataAck c .building c.innerTotal inner.length 0] v' ∧
        BuildRep v' c frame 0 inner
    else ∃ v', Sends (buildAck v) [] v' ∧ BuildRep v' c frame (pending + 1) inner := by
  have htotal := hv.conf.innerTotal
  have hid := hv.conf.sessionId
  by_cases hack : ackBatchFrames ≤ pending + 1 ∨ c.innerTotal ≤ inner.length
  · rw [if_pos hack]
    apply Sends.out
    · unfold buildAck
      simp only [hv.conf.running, Bool.false_eq_true, if_false, hv.pending_eq, hv.received,
        htotal, hid, if_pos hack]
      exact (Sends.put _).bind ((Sends.pure _).bind (Sends.pure _))
    · exact ⟨hv.conf, hv.frame_eq, rfl, rfl, hv.table, hv.noPairs, hv.noMatch⟩
  · rw [if_neg hack]
    apply Sends.out
    · unfold buildAck
      simp only [hv.conf.running, Bool.false_eq_true, if_false, hv.pending_eq, hv.received,
        htotal, hid, if_neg hack]
      exact (Sends.pure _).bind (Sends.pure _)
    · exact ⟨hv.conf, hv.frame_eq, rfl, rfl, hv.table, hv.noPairs, hv.noMatch⟩

/-- **A build frame, after it has been read.** -/
theorem buildTuples_sends (b : Build) (hv : BuildRep v c frame pending inner)
    (hbuf : v.s.Buffered ts) (hlen : ts.length ≤ rxBufTuples) (count : UInt16)
    (hcount : count.toNat = ts.length) :
    if LinearHashTable.fits (inner ++ ts) then
      if ackBatchFrames ≤ pending + 1 ∨ c.innerTotal ≤ (inner ++ ts).length then
        ∃ v', Sends (buildTuples b count v)
            [dataAck c .building c.innerTotal (inner ++ ts).length 0] (.inl v') ∧
          BuildRep v' c (frame + 1) 0 (inner ++ ts)
      else
        ∃ v', Sends (buildTuples b count v) [] (.inl v') ∧
          BuildRep v' c (frame + 1) (pending + 1) (inner ++ ts)
    else
      ∃ v', Sends (buildTuples b count v) [.error FpgaError.overflow.code] (.inl v') ∧
        v'.s.sessionDone = true := by
  have hloop := innerBatches_sends hv hbuf hlen (n := ts.length) le_rfl
  rw [List.take_length] at hloop
  have hdebug : Sends (Proc.when (count ≠ 0)
      (emitDebug b .info .buildKey (v.s.rxKeyBuf 0).toUInt64.toUInt32)) [] () :=
    Sends.when_quiet (Sends.emitDebug b _ _ _)
  by_cases hfits : LinearHashTable.fits (inner ++ ts)
  · rw [if_pos hfits] at hloop ⊢
    obtain ⟨v', hsend, hv', -, -⟩ := hloop
    have hack := buildAck_sends hv'
    have hnext : ∀ {os : List KOut} {v'' : BuildVars}, Sends (buildAck v') os v'' →
        Sends (buildTuples b count v) os (.inl { v'' with frame := v''.frame + 1 }) := by
      intro os v'' h
      rw [← hcount] at hsend
      exact hdebug.bind_quiet (hsend.bind_quiet (h.then_pure _))
    split at hack
    next hdue =>
      rw [if_pos hdue]
      obtain ⟨v'', h, hv''⟩ := hack
      exact ⟨_, hnext h, hv''.conf, congrArg (· + 1) hv''.frame_eq, hv''.pending_eq,
        hv''.received, hv''.table, hv''.noPairs, hv''.noMatch⟩
    next hdue =>
      rw [if_neg hdue]
      obtain ⟨v'', h, hv''⟩ := hack
      exact ⟨_, hnext h, hv''.conf, congrArg (· + 1) hv''.frame_eq, hv''.pending_eq,
        hv''.received, hv''.table, hv''.noPairs, hv''.noMatch⟩
  · rw [if_neg hfits] at hloop ⊢
    obtain ⟨v', hsend, hdone, -⟩ := hloop
    rw [← hcount] at hsend
    have hskip : Sends (buildAck v') [] v' := by
      rw [buildAck, hdone]
      exact Sends.pure v'
    exact ⟨_, hdebug.bind_quiet (hsend.bind (hskip.then_pure _)), hdone⟩

end BuildPhase

/-! ## Probe phase -/

@[simp] theorem length_bufferedPairs (buf : Nat → ResultPair) (n : Nat) :
    (bufferedPairs buf n).length = n := by
  simp [bufferedPairs]

/-- Writing behind the buffered pairs appends a pair. -/
theorem bufferedPairs_update (buf : Nat → ResultPair) (n : Nat) (p : ResultPair) :
    bufferedPairs (Function.update buf n p) (n + 1) = bufferedPairs buf n ++ [p] := by
  rw [bufferedPairs, List.range_succ, List.map_append]
  refine congrArg₂ (· ++ ·) ?_ (by simp)
  refine List.map_congr_left fun i hi => ?_
  have hlt : i < n := List.mem_range.mp hi
  exact Function.update_of_ne (by omega) _ _

/-- The variables of the probe loop when the rows `seen` have been probed. -/
structure ProbeRep (v : ProbeVars) (c : Conf) (frame pending : Nat)
    (inner seen : List InputTuple) (buf : List ResultPair) : Prop where
  conf : v.s.Configured .algorithmA c
  frame_eq : v.frame = frame
  pending_eq : v.probeAckPendingFrames = pending
  received : v.outerReceived = seen.length
  table : v.s.ht.Holds inner
  pairs : bufferedPairs v.s.resultBuf v.s.resultBufCnt = buf
  room : buf.length < resultFlushPairs
  matched : v.s.matched = (join inner seen).length

section ProbePhase

variable {v : ProbeVars} {c : Conf} {frame pending : Nat} {inner seen ts : List InputTuple}
  {buf : List ResultPair}

theorem ProbeRep.count (hv : ProbeRep v c frame pending inner seen buf) :
    v.s.resultBufCnt = buf.length := by
  rw [← hv.pairs, length_bufferedPairs]

/-- Sending the buffered pairs. -/
theorem flushResultBatch_sends (hpairs : bufferedPairs v.s.resultBuf v.s.resultBufCnt = buf) :
    ∃ v', Sends (flushResultBatch v) ((Batching.flush buf).map .results) v' ∧
      v'.s.resultBufCnt = 0 ∧
      (∀ {algorithm c}, v.s.Configured algorithm c → v'.s.Configured algorithm c) ∧
      v'.frame = v.frame ∧ v'.probeAckPendingFrames = v.probeAckPendingFrames ∧
      v'.outerReceived = v.outerReceived ∧ v'.s.ht = v.s.ht ∧ v'.s.matched = v.s.matched ∧
      v'.s.rxKeyBuf = v.s.rxKeyBuf ∧ v'.s.rxTidBuf = v.s.rxTidBuf := by
  by_cases hzero : v.s.resultBufCnt = 0
  · have hnil : buf = [] := by
      rw [← hpairs, hzero]
      rfl
    refine ⟨v, ?_, hzero, id, rfl, rfl, rfl, rfl, rfl, rfl, rfl⟩
    rw [flushResultBatch, if_pos hzero, hnil]
    exact Sends.pure v
  · have hne : buf ≠ [] := by
      intro hnil
      have hlen := congrArg List.length hpairs
      rw [length_bufferedPairs, hnil] at hlen
      exact hzero hlen
    apply Sends.out
    · rw [flushResultBatch, if_neg hzero, hpairs, Batching.flush, if_neg hne]
      exact (Sends.put _).bind (Sends.pure _)
    · exact ⟨rfl, id, rfl, rfl, rfl, rfl, rfl, rfl, rfl⟩

/-- A pair goes into the buffer, and the buffer goes out when it is full. -/
theorem probeHit_sends (hv : ProbeRep v c frame pending inner seen buf) {t : InputTuple}
    {innerTid : Tid} (hfound : firstMatch inner t.key = some innerTid) :
    ∃ v', Sends (probeHit v (innerTid, t.tid))
        ((Batching.push resultFlushPairs buf (join inner [t])).1.map .results) v' ∧
      ProbeRep v' c frame pending inner (seen ++ [t])
        (Batching.push resultFlushPairs buf (join inner [t])).2 ∧
      v'.s.rxKeyBuf = v.s.rxKeyBuf ∧ v'.s.rxTidBuf = v.s.rxTidBuf := by
  have hjoin : join inner [t] = [(innerTid, t.tid)] := join_singleton_some hfound
  have hmatched : v.s.matched + 1 = (join inner (seen ++ [t])).length := by
    rw [join_append, List.length_append, hjoin, hv.matched, List.length_singleton]
  have hcnt := hv.count
  have hroom := hv.room
  have hpairs : bufferedPairs (v.storePair (innerTid, t.tid)).s.resultBuf
      (v.storePair (innerTid, t.tid)).s.resultBufCnt = buf ++ [(innerTid, t.tid)] := by
    rw [← hv.pairs]
    exact bufferedPairs_update _ _ _
  have hsize : v.s.resultBufCnt < txBufSize := by
    rw [hcnt, txBufSize_eq]
    rw [resultFlushPairs_eq] at hroom
    omega
  have hstored : (v.storePair (innerTid, t.tid)).s.resultBufCnt = buf.length + 1 := by
    rw [← hcnt]
    rfl
  rw [hjoin]
  by_cases hfull : resultFlushPairs ≤ buf.length + 1
  · obtain ⟨v', hsend, hzero, hconf, hframe, hpend, hrecv, hht, hmat, hkeys, htids⟩ :=
      flushResultBatch_sends hpairs
    have hflush : Sends (flushIfFull (v.storePair (innerTid, t.tid)))
        ((Batching.push resultFlushPairs buf [(innerTid, t.tid)]).1.map .results) v' := by
      rw [flushIfFull, hstored, if_pos hfull, Batching.push_full _ hfull]
      simpa [Batching.flush] using hsend
    refine ⟨_, (Sends.require hsize).bind_quiet (hflush.then_pure _), ?_, hkeys, htids⟩
    rw [Batching.push_full _ hfull]
    refine ⟨hconf hv.conf, hframe.trans hv.frame_eq, hpend.trans hv.pending_eq, ?_, ?_, ?_, ?_, ?_⟩
    · rw [List.length_append, List.length_singleton, ← hv.received]
      exact congrArg (· + 1) hrecv
    · exact hht ▸ hv.table
    · simp [hzero, bufferedPairs]
    · simp
    · exact hmat.trans hmatched
  · have hkeep : Sends (flushIfFull (v.storePair (innerTid, t.tid)))
        ((Batching.push resultFlushPairs buf [(innerTid, t.tid)]).1.map .results)
        (v.storePair (innerTid, t.tid)) := by
      rw [flushIfFull, hstored, if_neg hfull, Batching.push_room _ (by omega)]
      exact Sends.pure _
    refine ⟨_, (Sends.require hsize).bind_quiet (hkeep.then_pure _), ?_, rfl, rfl⟩
    rw [Batching.push_room _ (by omega)]
    refine ⟨hv.conf, hv.frame_eq, hv.pending_eq, ?_, hv.table, hpairs, ?_, hmatched⟩
    · rw [List.length_append, List.length_singleton, ← hv.received]
      rfl
    · rw [List.length_append, List.length_singleton]
      omega

/-- Probing with the next tuple of the receive buffers. -/
theorem outerBatch_sends (b : Build) (hv : ProbeRep v c frame pending inner seen buf) {i : Nat}
    {t : InputTuple} (ht : v.s.rxKeyBuf i = t.key ∧ v.s.rxTidBuf i = t.tid)
    (hi : i < rxBufTuples) :
    ∃ v', Sends (outerBatch b v i)
        ((Batching.push resultFlushPairs buf (join inner [t])).1.map .results) v' ∧
      ProbeRep v' c frame pending inner (seen ++ [t])
        (Batching.push resultFlushPairs buf (join inner [t])).2 ∧
      v'.s.rxKeyBuf = v.s.rxKeyBuf ∧ v'.s.rxTidBuf = v.s.rxTidBuf := by
  have hprobe : (v.s.ht.probe t.key).1 = firstMatch inner t.key := hv.table.probe t.key
  have hdebug : ∀ value, Sends (Proc.when (i = 0) (emitDebug b .info .probeHit value)) [] () :=
    fun value => Sends.when_quiet (Sends.emitDebug b _ _ _)
  have hlooked : ∀ steps, ProbeRep (v.looked steps) c frame pending inner seen buf := fun steps =>
    ⟨hv.conf, hv.frame_eq, hv.pending_eq, hv.received, hv.table, hv.pairs, hv.room, hv.matched⟩
  cases hfound : firstMatch inner t.key with
  | none =>
    have hjoin : join inner [t] = [] := join_singleton_none hfound
    refine ⟨(v.looked (v.s.ht.probe t.key).2).miss, ?_, ?_, rfl, rfl⟩
    · unfold outerBatch
      simp only [ht.1, hprobe, hfound, hjoin]
      exact (Sends.require hi).bind_quiet ((hdebug _).bind_quiet (Sends.pure _))
    · have h := hlooked (v.s.ht.probe t.key).2
      rw [hjoin]
      refine ⟨h.conf, h.frame_eq, h.pending_eq, ?_, h.table, h.pairs, h.room, ?_⟩
      · rw [List.length_append, List.length_singleton, ← h.received]
        rfl
      · rw [join_append, hjoin, List.append_nil]
        exact h.matched
  | some innerTid =>
    obtain ⟨v', hsend, hv', hkeys, htids⟩ :=
      probeHit_sends (hlooked (v.s.ht.probe t.key).2) hfound
    refine ⟨v', ?_, hv', hkeys, htids⟩
    unfold outerBatch
    simp only [ht.1, ht.2, hprobe, hfound]
    exact (Sends.require hi).bind_quiet ((hdebug _).bind_quiet hsend)

/-- The probe loop over the first `n` tuples of the receive buffers. -/
theorem outerBatches_sends (b : Build) (hv : ProbeRep v c frame pending inner seen buf)
    (hbuf : v.s.Buffered ts) (hlen : ts.length ≤ rxBufTuples) {n : Nat} (hn : n ≤ ts.length) :
    ∃ v', Sends (Proc.forRange n (outerBatch b) v)
        ((Batching.push resultFlushPairs buf (join inner (ts.take n))).1.map .results) v' ∧
      ProbeRep v' c frame pending inner (seen ++ ts.take n)
        (Batching.push resultFlushPairs buf (join inner (ts.take n))).2 ∧
      v'.s.rxKeyBuf = v.s.rxKeyBuf ∧ v'.s.rxTidBuf = v.s.rxTidBuf := by
  induction n with
  | zero => exact ⟨v, Sends.pure v, by simpa using hv, rfl, rfl⟩
  | succ n ih =>
    obtain ⟨v', hsend, hv', hkeys, htids⟩ := ih (by omega)
    have htake : ts.take (n + 1) = ts.take n ++ [ts[n]] := (List.take_append_getElem _).symm
    have ht : v'.s.rxKeyBuf n = ts[n].key ∧ v'.s.rxTidBuf n = ts[n].tid := by
      rw [hkeys, htids]
      exact hbuf n _ (List.getElem?_eq_getElem _)
    obtain ⟨v'', hsend', hv'', hkeys', htids'⟩ := outerBatch_sends b hv' ht (by omega)
    refine ⟨v'', ?_, ?_, hkeys'.trans hkeys, htids'.trans htids⟩
    · rw [htake, join_append, Batching.push_append, List.map_append]
      exact hsend.forRange_succ hsend'
    · rw [htake, join_append, Batching.push_append, ← List.append_assoc]
      exact hv''

/-- The end of the session inside the probe loop. -/
theorem probeDone_sends (b : Build) (innerReceived : Nat) (hconf : v.s.Configured .algorithmA c)
    (hrecv : v.outerReceived = seen.length) (hmatched : v.s.matched = (join inner seen).length) :
    ∃ v', Sends (probeDone b innerReceived v)
        [.timing, doneStatus c seen.length (join inner seen).length] v' ∧
      v'.s.sessionDone = true := by
  rw [doneStatus, ← hrecv, ← hmatched, ← hconf.sessionId]
  apply Sends.out
  · unfold probeDone
    exact (Sends.put _).bind ((Sends.put _).bind (Sends.pure _))
  · rfl

/-- The acknowledgement of a probe frame that is not the last one. -/
theorem probeAck_sends (hv : ProbeRep v c frame (pending + 1) inner seen buf) :
    if ackBatchFrames ≤ pending + 1 then
      ∃ v', Sends (probeAck v)
          [dataAck c .probing c.outerTotal seen.length (join inner seen).length] v' ∧
        ProbeRep v' c frame 0 inner seen buf
    else ∃ v', Sends (probeAck v) [] v' ∧ ProbeRep v' c frame (pending + 1) inner seen buf := by
  have htotal := hv.conf.outerTotal
  have hid := hv.conf.sessionId
  by_cases hack : ackBatchFrames ≤ pending + 1
  · rw [if_pos hack]
    apply Sends.out
    · unfold probeAck
      simp only [hv.pending_eq, hv.received, hv.matched, htotal, hid, if_pos hack]
      exact (Sends.put _).bind ((Sends.pure _).bind (Sends.pure _))
    · exact ⟨hv.conf, hv.frame_eq, rfl, rfl, hv.table, hv.pairs, hv.room, hv.matched⟩
  · rw [if_neg hack]
    apply Sends.out
    · unfold probeAck
      simp only [hv.pending_eq, if_neg hack]
      exact (Sends.pure _).bind (Sends.pure _)
    · exact ⟨hv.conf, hv.frame_eq, hv.pending_eq, hv.received, hv.table, hv.pairs, hv.room,
        hv.matched⟩

theorem ProbeRep.nextFrame (hv : ProbeRep v c frame pending inner seen buf) :
    ProbeRep { v with frame := v.frame + 1 } c (frame + 1) pending inner seen buf :=
  ⟨hv.conf, congrArg (· + 1) hv.frame_eq, hv.pending_eq, hv.received, hv.table, hv.pairs,
    hv.room, hv.matched⟩

/-- **A probe frame, after it has been read.** -/
theorem probeTuples_sends (b : Build) (innerReceived : Nat)
    (hv : ProbeRep v c frame pending inner seen buf) (hbuf : v.s.Buffered ts)
    (hlen : ts.length ≤ rxBufTuples) (count : UInt16) (hcount : count.toNat = ts.length) :
    let seen' := seen ++ ts.take (c.outerTotal - seen.length)
    let r := Batching.push resultFlushPairs buf
      (join inner (ts.take (c.outerTotal - seen.length)))
    let matched := (join inner seen').length
    if ts.length = 0 ∨ c.outerTotal ≤ seen'.length then
      ∃ v', Sends (probeTuples b innerReceived count v)
          (r.1.map .results ++ ((Batching.flush r.2).map .results ++
            [.timing, doneStatus c seen'.length matched])) (.inl v') ∧
        v'.s.sessionDone = true
    else if ackBatchFrames ≤ pending + 1 then
      ∃ v', Sends (probeTuples b innerReceived count v)
          (r.1.map .results ++ [dataAck c .probing c.outerTotal seen'.length matched]) (.inl v') ∧
        ProbeRep v' c (frame + 1) 0 inner seen' r.2
    else
      ∃ v', Sends (probeTuples b innerReceived count v) (r.1.map .results) (.inl v') ∧
        ProbeRep v' c (frame + 1) (pending + 1) inner seen' r.2 := by
  intro seen' r matched
  have hdebug : Sends (Proc.when (count ≠ 0)
      (emitDebug b .info .probeKey (v.s.rxKeyBuf 0).toUInt64.toUInt32)) [] () :=
    Sends.when_quiet (Sends.emitDebug b _ _ _)
  have hzero : count = 0 ↔ ts.length = 0 := by
    rw [← hcount]
    exact UInt16.toNat_inj.symm
  obtain ⟨v₁, hloop, hv₁, -, -⟩ := outerBatches_sends b hv hbuf hlen
    (n := min (c.outerTotal - seen.length) ts.length) (min_le_right _ _)
  rw [← List.take_eq_take_min] at hloop hv₁
  have hsend : Sends (Proc.forRange (min (v.s.outerTotal - v.outerReceived) count.toNat)
      (outerBatch b) v) (r.1.map .results) v₁ := by
    rw [hcount, hv.conf.outerTotal, hv.received]
    exact hloop
  have hdone : (count = 0 ∨ v₁.s.outerTotal ≤ v₁.outerReceived) ↔
      (ts.length = 0 ∨ c.outerTotal ≤ seen'.length) := by
    rw [hzero, hv₁.conf.outerTotal, hv₁.received]
  have hbump : ProbeRep { v₁ with probeAckPendingFrames := v₁.probeAckPendingFrames + 1 } c frame
      (pending + 1) inner seen' r.2 :=
    ⟨hv₁.conf, hv₁.frame_eq, congrArg (· + 1) hv₁.pending_eq, hv₁.received, hv₁.table, hv₁.pairs,
      hv₁.room, hv₁.matched⟩
  by_cases hend : ts.length = 0 ∨ c.outerTotal ≤ seen'.length
  · rw [if_pos hend]
    obtain ⟨v₂, hflush, -, hconf₂, -, -, hrecv₂, -, hmat₂, -, -⟩ :=
      flushResultBatch_sends hv₁.pairs
    obtain ⟨v₃, hstat, hfin⟩ := probeDone_sends b innerReceived
      (v := { v₂ with probeAckPendingFrames := v₂.probeAckPendingFrames + 1 })
      (hconf₂ hv₁.conf) (hrecv₂.trans hv₁.received) (hmat₂.trans hv₁.matched)
    refine ⟨{ v₃ with frame := v₃.frame + 1 }, ?_, hfin⟩
    refine hdebug.bind_quiet (hsend.bind ?_)
    rw [if_pos (hdone.mpr hend)]
    exact hflush.bind (hstat.then_pure _)
  · rw [if_neg hend]
    have hack := probeAck_sends hbump
    split at hack
    next hdue =>
      rw [if_pos hdue]
      obtain ⟨v₂, h, hv₂⟩ := hack
      refine ⟨_, ?_, hv₂.nextFrame⟩
      refine hdebug.bind_quiet (hsend.bind ?_)
      rw [if_neg (hdone.not.mpr hend)]
      exact h.then_pure _
    next hdue =>
      rw [if_neg hdue]
      obtain ⟨v₂, h, hv₂⟩ := hack
      refine ⟨_, ?_, hv₂.nextFrame⟩
      rw [← List.append_nil (List.map KOut.results r.1)]
      refine hdebug.bind_quiet (hsend.bind ?_)
      rw [if_neg (hdone.not.mpr hend)]
      exact h.then_pure _

end ProbePhase

end FpgaHashJoin
