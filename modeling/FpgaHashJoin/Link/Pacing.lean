import FpgaHashJoin.Host.Coverage
import FpgaHashJoin.Link.LinearSession

/-!
# Windows that block

With Algorithm A the kernel acknowledges every second DATA frame and the last one of a phase.
A client whose window has room for one frame only waits for the ACK of that frame, while the
kernel waits for the next one. The module says exactly which calls come to such a state.
-/

namespace FpgaHashJoin

open Process CreditWindow KState EquiJoin

/-- Every wait of the kernel can be ended by RESET. -/
theorem KState.accepts_reset {b : Build} {kst : KState} (h : kst ≠ .ended) :
    ∃ r, step b kst (.frame .reset) = some r := by
  cases kst with
  | ended => exact absurd rfl h
  | _ => exact ⟨_, rfl⟩

section Pacing

variable {j : JoinCall} {b : Build}

/-- Two sides at rest wait for each other. -/
theorem Link.Stands.blocked {cst : CState} {kst : KState} {n : Link}
    (h : n.Stands j b cst [] kst) (hcst : ∀ r, cst ≠ .finished r) (hkst : kst ≠ .ended) :
    n.Blocked := by
  obtain ⟨r, hreset⟩ := KState.accepts_reset (b := b) hkst
  refine ⟨?_, ?_, h.toLeft, h.toRight⟩
  · exact Machine.reads h.left (JoinCall.step_of_valid hcst (e := .timeout) trivial)
      (List.cons_ne_nil _ _)
  · exact Machine.reads h.right hreset (List.cons_ne_nil _ _)

/-! ## A window of one frame -/

/-- The client has a frame under way that the kernel has taken, and the kernel waits for
another one. -/
def Outcome.Starves : Outcome → Prop
  | .returns _ => False
  | .rests (.build v) (.build _ _ _ _) => v.inflight ≠ []
  | .rests (.probe v _) (.probe _ _ _ _ _ _) => v.inflight ≠ []
  | .rests _ _ => False

theorem Outcome.Starves.blocked {e : Outcome} (he : e.Starves) {n : Link} (hn : e.Holds j b n) :
    n.Blocked := by
  cases e with
  | returns r => exact absurd he id
  | rests cst kst =>
    refine Link.Stands.blocked hn ?_ ?_
    · rintro r rfl
      exact he
    · rintro rfl
      cases cst <;> exact he

/-- With two batches and a window of one the build phase stops after the first batch. -/
theorem narrow_build (halg : j.config.algorithm = AlgorithmType.algorithmA.code)
    (hcap : j.inner.length ≤ htMaxRows) (hlen : j.outer.length < 2 ^ 32) (hw : j.window = 1)
    (hfits : LinearHashTable.fits ((j.arriving j.inner).take j.batch))
    (hmany : j.batch < j.inner.length) :
    ∃ e, Leads j b .config j.configurePacket .idle e ∧ e.Starves := by
  have hb : 0 < j.batch := j.client.batch_pos
  have hone : 1 < batchCount j.batch j.inner.length := (lt_batchCount hb).mpr (by omega)
  obtain ⟨v, s, haligned, hopen, hahead, hconfig⟩ :=
    configure_leads (b := b) halg hcap hlen (by omega)
  have hlt : 0 < j.ahead j.inner 0 := JoinCall.lt_ahead (by omega)
  obtain rfl : s = 1 := by omega
  have hstep := build_taken (j := j) (b := b) (i := 0) (p := 0) (by omega)
  rw [Nat.zero_add, Nat.one_mul, if_pos hfits, if_neg (by simp [ackBatchFrames]; omega)] at hstep
  have hkernel := enterBuild_taken (j := j) (b := b) (i := 1) (p := 1) hcap hone.le
  rw [Nat.one_mul, if_neg (by omega)] at hkernel
  rw [hkernel, Nat.zero_mul, List.take_zero] at hstep
  have hrests : Leads j b (.build v) (j.chunkFrames .inner j.inner 0 1)
      (.build j.linearConf 0 0 []) (.rests (.build v)
        (.build j.linearConf 1 1 ((j.arriving j.inner).take j.batch))) := by
    rw [JoinCall.chunkFrames_cons _ _ Nat.zero_lt_one]
    refine Leads.frame (by simp) hstep (LeadsFrom.silent ?_)
    rw [JoinCall.chunkFrames_self]
    exact .rests (fun _ => CState.noConfusion) _
  exact ⟨_, hconfig hrests, haligned.inflight_ne_nil Nat.zero_lt_one⟩

/-- With two batches and a window of one the probe phase stops after the first batch. -/
theorem narrow_probe (hw : j.window = 1) (hmany : j.batch < j.outer.length) :
    ∃ v, LeadsFrom j b (j.enterProbe {}).1 (j.enterProbe {}).2 []
      (enterProbe b j.linearConf 0 0 (j.arriving j.inner) [] [])
      (.rests (.probe v (j.pushed 0 []).1.flatten)
        (.probe j.linearConf 1 1 (j.arriving j.inner) (j.probed 1) (j.pushed 0 []).2)) ∧
      v.inflight = [j.batch] := by
  have hb : 0 < j.batch := j.client.batch_pos
  have hone : 1 < batchCount j.batch j.outer.length := (lt_batchCount hb).mpr (by omega)
  have hkernel := enterProbe_starts (j := j) (b := b) (by omega)
  obtain ⟨v, s, henter, haligned, hopen, hahead⟩ := JoinCall.enterProbe_starts (j := j) (by omega)
  have hlt : 0 < j.ahead j.outer 0 := JoinCall.lt_ahead (by omega)
  obtain rfl : s = 1 := by omega
  have hstep := probe_taken (j := j) (b := b) (i := 0) (p := 0) [] (by omega)
  rw [Nat.zero_add, if_neg (by omega), if_neg (by decide), enterProbe_taken _ hone,
    if_pos (by decide)] at hstep
  have hfirst : batchSize j.batch j.outer.length 0 = j.batch := by
    unfold batchSize
    omega
  refine ⟨v, ?_, by rw [haligned.inflight]; simp [hfirst]⟩
  rw [henter, hkernel]
  refine LeadsFrom.silent ?_
  rw [List.nil_append, JoinCall.flatten_chunkPackets, JoinCall.chunkFrames_cons _ _ Nat.zero_lt_one,
    JoinCall.chunkFrames_self]
  refine Leads.frame (by simp) hstep (LeadsFrom.probeResults (JoinCall.pushed_sound (by decide))
    (LeadsFrom.silent ?_))
  exact .rests (fun _ => CState.noConfusion) _

/-- If the first batch does not fit, the kernel reports it at once. -/
theorem first_batch_overflows (halg : j.config.algorithm = AlgorithmType.algorithmA.code)
    (hcap : j.inner.length ≤ htMaxRows) (hlen : j.outer.length < 2 ^ 32)
    (hfull : ¬ LinearHashTable.fits ((j.arriving j.inner).take j.batch)) :
    Leads j b .config j.configurePacket .idle overflowed := by
  have hb : 0 < j.batch := j.client.batch_pos
  have hrows : 0 < j.inner.length := by
    by_contra hnone
    have hnil : j.inner = [] := List.length_eq_zero_iff.mp (by omega)
    rw [JoinCall.arriving, hnil, List.map_nil, List.take_nil] at hfull
    exact hfull LinearHashTable.fits_nil
  have hmore : 0 < batchCount j.batch j.inner.length := (lt_batchCount hb).mpr (by omega)
  obtain ⟨v, s, haligned, hopen, hahead, hconfig⟩ := configure_leads (b := b) halg hcap hlen hmore
  have hlt : 0 < j.ahead j.inner 0 := JoinCall.lt_ahead hmore
  have hstep := build_taken (j := j) (b := b) (i := 0) (p := 0) (by omega)
  rw [Nat.zero_add, Nat.one_mul, if_neg hfull, Nat.zero_mul, List.take_zero] at hstep
  refine hconfig ?_
  rw [JoinCall.chunkFrames_cons _ _ (show 0 < s by omega)]
  exact Leads.frame (by simp) hstep (leads_error _ _ (by simp [CState.kind]))

/-! ## All windows -/

/-- Every call with Algorithm A returns, or it can come to a state in which it starves. -/
theorem returns_or_starves (halg : j.config.algorithm = AlgorithmType.algorithmA.code)
    (hcap : j.inner.length ≤ htMaxRows) (hlen : j.outer.length < 2 ^ 32) :
    if 2 ≤ j.window ∨ (j.inner.length ≤ j.batch ∧ j.outer.length ≤ j.batch) ∨
        ¬ LinearHashTable.fits ((j.arriving j.inner).take j.batch) then
      ∃ r, Leads j b .config j.configurePacket .idle (.returns r)
    else ∃ e, Leads j b .config j.configurePacket .idle e ∧ e.Starves := by
  have hpos : 0 < j.window := j.client.window_pos
  split
  next hcond =>
    by_cases hfull : LinearHashTable.fits ((j.arriving j.inner).take j.batch)
    · have hpaced : j.Paced j.inner ∧ j.Paced j.outer := by
        unfold JoinCall.Paced
        tauto
      obtain ⟨r, hleads, -⟩ := linear_leads (b := b) halg hcap hlen hpaced.1 hpaced.2
      exact ⟨r, hleads⟩
    · exact ⟨_, first_batch_overflows halg hcap hlen hfull⟩
  next hcond =>
    push Not at hcond
    obtain ⟨hnarrow, hmany, hfits⟩ := hcond
    have hw : j.window = 1 := by omega
    by_cases hinner : j.inner.length ≤ j.batch
    · have houter := hmany hinner
      refine session_leads halg hcap hlen (Or.inr hinner) (fun _ => ?_) ?_
      · obtain ⟨v, hleads, hv⟩ := narrow_probe (b := b) hw houter
        exact ⟨_, hleads, by simp [Outcome.Starves, hv]⟩
      · intro hover
        rw [List.take_of_length_le (by rwa [JoinCall.length_arriving])] at hfits
        exact absurd hfits hover
    · exact narrow_build halg hcap hlen hw hfits (by omega)

/-- **Which windows block.** In no interleaving do client and kernel wait for each other if and
only if the window has room for two frames, or no phase has two frames, or the kernel rejects the
first batch. -/
theorem never_blocked_iff (b : Build) (s : Session)
    (halg : j.config.algorithm = AlgorithmType.algorithmA.code)
    (hcap : j.inner.length ≤ htMaxRows) (hlen : j.outer.length < 2 ^ 32) :
    (∀ n : Link, Net.Reach fifo (j.link b s) n → ¬ n.Blocked) ↔
      2 ≤ j.window ∨ (j.inner.length ≤ j.batch ∧ j.outer.length ≤ j.batch) ∨
        ¬ LinearHashTable.fits ((j.arriving j.inner).take j.batch) := by
  have hall := returns_or_starves (b := b) halg hcap hlen
  constructor
  · intro hnever
    by_contra hcond
    rw [if_neg hcond] at hall
    obtain ⟨e, hleads, hstarves⟩ := hall
    obtain ⟨n, hreach, hn⟩ := JoinCall.reaches s hleads
    exact hnever n hreach (hstarves.blocked hn)
  · intro hcond n hreach hblocked
    rw [if_pos hcond] at hall
    obtain ⟨r, hleads⟩ := hall
    exact hblocked.left.ne_ret _ ((JoinCall.every_interleaving s hleads hreach).2.1 hblocked.stuck)

end Pacing

/-- A call that sends its two outer rows one by one, with a window of two. -/
def pacedRowCall : JoinCall :=
  (FpgaClient.new { maxBatchTuples := 1, ackWindowFrames := 2 }).call 0 {} [] [(1, ⟨0, 1⟩), (2, ⟨0, 2⟩)]

theorem never_blocked_iff_pacedRow :
    2 ≤ pacedRowCall.window ∧
      ∀ n : Link, Net.Reach fifo (pacedRowCall.link (.csim {}) default) n → ¬ n.Blocked :=
  ⟨by decide, (never_blocked_iff (.csim {}) default rfl (by decide) (by decide)).mpr
    (Or.inl (by decide))⟩

/-- The client waits for the ACK of its first row, which the kernel has taken, and the kernel
waits for the second one. -/
theorem twoRow_starves :
    ∃ (n : Link) (v : Window), Net.Reach fifo (JoinCall.twoRowCall.link (.csim {}) default) n ∧
      n.Stands JoinCall.twoRowCall (.csim {}) (.probe v []) []
        (.probe JoinCall.twoRowCall.linearConf 1 1 [] [(1, ⟨0, 1⟩)] []) ∧
      v.inflight = [1] ∧ n.Blocked := by
  obtain ⟨v, hleads, hv⟩ := narrow_probe (j := JoinCall.twoRowCall) (b := .csim {}) rfl (by decide)
  obtain ⟨n, hreach, hn⟩ := JoinCall.reaches default
    (configure_leads_nil rfl (by decide) (by decide) (by decide) hleads)
  have hstands : Link.Stands JoinCall.twoRowCall (.csim {}) (.probe v []) []
      (.probe JoinCall.twoRowCall.linearConf 1 1 [] [(1, ⟨0, 1⟩)] []) n := hn
  exact ⟨n, v, hreach, hstands, hv, hstands.blocked (fun _ => CState.noConfusion) KState.noConfusion⟩

end FpgaHashJoin
