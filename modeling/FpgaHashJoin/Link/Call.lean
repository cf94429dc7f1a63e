import FpgaHashJoin.Link.GraceSession

/-!
# What a call returns

Client and kernel, joined by reliable channels. Every interleaving has the result of the schedule
of its algorithm. In the C simulation the schedule ends in a state without steps; as steps commute,
every interleaving has at most as many steps as the schedule and comes to the same end.
-/

namespace FpgaHashJoin

open Process CreditWindow KState EquiJoin

namespace JoinCall

variable (j : JoinCall)

/-- The lists of a call that CONFIGURE admits. With Algorithm A the frames of the probe loop
suffice for the outer rows. -/
structure Admitted : Prop where
  innerKeys : ∀ t ∈ j.inner, j.config.keyType.InRange t.key
  outerKeys : ∀ t ∈ j.outer, j.config.keyType.InRange t.key
  outerCount : j.outer.length < 2 ^ 32
  checked : (j.config.algorithm = AlgorithmType.algorithmA.code ∧ j.inner.length ≤ htMaxRows ∧
      batchCount j.batch j.outer.length ≤ maxProbeFrames) ∨
    (j.config.algorithm = AlgorithmType.algorithmB.code ∧ ∃ K outerSlotW,
      checkConfigure AlgorithmType.algorithmB.code j.inner.length j.outer.length =
        .ok (K, outerSlotW))

/-- The kernel has room for the rows. -/
def Fits : Prop :=
  (j.config.algorithm = AlgorithmType.algorithmA.code ∧ LinearHashTable.fits j.inner) ∨
    (j.config.algorithm = AlgorithmType.algorithmB.code ∧ ∃ K outerSlotW,
      checkConfigure AlgorithmType.algorithmB.code j.inner.length j.outer.length =
        .ok (K, outerSlotW) ∧ GraceFits (j.graceConf K outerSlotW) j.inner j.outer)

/-- The result that the call should have: the pairs of the join, in the order of the outer rows
with Algorithm A. If the kernel has no room, it is the error that the kernel reports. -/
structure Joined (r : JoinResult) : Prop where
  pairs : j.Fits → ∃ rs, r = .ok rs ∧ rs.Perm (join j.inner j.outer) ∧
    (j.config.algorithm = AlgorithmType.algorithmA.code → rs = join j.inner j.outer)
  overflow : ¬ j.Fits → r = .error (.fpgaError FpgaError.overflow.code)

variable {j} {b : Build}

theorem algorithmA_ne_B : AlgorithmType.algorithmA.code ≠ AlgorithmType.algorithmB.code := by decide

/-- With Algorithm A. -/
theorem linear_answers (hadm : j.Admitted) (hw : 2 ≤ j.window)
    (halg : j.config.algorithm = AlgorithmType.algorithmA.code) (hcap : j.inner.length ≤ htMaxRows)
    (hfew : batchCount j.batch j.outer.length ≤ maxProbeFrames) :
    ∃ r, Leads j b .config j.configurePacket .idle (.returns r) ∧ j.Joined r := by
  have hinner : j.arriving j.inner = j.inner := KeyType.map_wire_eq hadm.innerKeys
  have houter : j.arriving j.outer = j.outer := KeyType.map_wire_eq hadm.outerKeys
  have hfits : j.Fits ↔ LinearHashTable.fits j.inner := by
    simp [Fits, halg, algorithmA_ne_B]
  obtain ⟨r, hleads, hreports, hover⟩ :=
    linear_leads (b := b) halg hcap hadm.outerCount (Or.inl hw) (Or.inl hw)
  unfold Reports reference at hreports
  rw [hinner, houter] at hreports
  rw [hinner] at hover
  refine ⟨r, hleads, fun h => ?_, fun h => ?_⟩
  · exact ⟨_, hreports (hfits.mp h) hfew, List.Perm.refl _, fun _ => rfl⟩
  · exact Outcome.returns.inj (hover fun hroom => h (hfits.mpr hroom))

/-- With Algorithm B. -/
theorem grace_answers (hadm : j.Admitted) {K outerSlotW : Nat}
    (halg : j.config.algorithm = AlgorithmType.algorithmB.code)
    (hcheck : checkConfigure AlgorithmType.algorithmB.code j.inner.length j.outer.length =
      .ok (K, outerSlotW)) :
    ∃ r, Leads j b .config j.configurePacket .idle (.returns r) ∧ j.Joined r := by
  have hinner : j.arriving j.inner = j.inner := KeyType.map_wire_eq hadm.innerKeys
  have houter : j.arriving j.outer = j.outer := KeyType.map_wire_eq hadm.outerKeys
  have hfits : j.Fits ↔ GraceFits (j.graceConf K outerSlotW) j.inner j.outer := by
    simp [Fits, halg, algorithmA_ne_B.symm, hcheck]
  have hother : j.config.algorithm ≠ AlgorithmType.algorithmA.code := by
    rw [halg]
    exact algorithmA_ne_B.symm
  obtain ⟨e, hleads, he⟩ := grace_leads (b := b) halg hadm.outerCount hcheck hinner houter
  unfold GraceReported at he
  split at he
  next hroom =>
    obtain ⟨rs, rfl, hperm⟩ := he
    exact ⟨_, hleads, fun _ => ⟨rs, rfl, hperm, fun h => absurd h hother⟩,
      fun h => absurd (hfits.mpr hroom) h⟩
  next hroom =>
    subst he
    exact ⟨_, hleads, fun h => absurd (hfits.mp h) hroom, fun _ => rfl⟩

theorem answers_leads (hadm : j.Admitted)
    (hw : j.config.algorithm = AlgorithmType.algorithmA.code → 2 ≤ j.window) :
    ∃ r, Leads j b .config j.configurePacket .idle (.returns r) ∧ j.Joined r := by
  rcases hadm.checked with ⟨halg, hcap, hfew⟩ | ⟨halg, K, outerSlotW, hcheck⟩
  · exact linear_answers hadm (hw halg) halg hcap hfew
  · exact grace_answers hadm halg hcheck

/-- **Every interleaving joins.** In the C simulation with a window of at least two frames, a call
has one result in all interleavings: the pairs of the join, unless the kernel has no room for the
rows. No interleaving is longer than `k` steps, each can be continued to the state `t` in which
the call has returned, and in none do client and kernel wait for each other before. -/
theorem every_interleaving_joins (rtl : RtlStreamTiming) (s : Session) (hadm : j.Admitted)
    (hw : 2 ≤ j.window) :
    ∃ r, j.Joined r ∧ ∃ k t, t.left.proc = .ret r ∧
      ∀ i n, Steps (Net.Step fifo) i (j.link (.csim rtl) s) n →
        i ≤ k ∧ Steps (Net.Step fifo) (k - i) n t ∧ ¬ n.Blocked ∧
          ∀ r', n.left.proc = .ret r' → r' = r := by
  obtain ⟨r, hleads, hr⟩ := answers_leads (b := .csim rtl) hadm fun _ => hw
  obtain ⟨t, hreach, hleft, hright⟩ := JoinCall.reaches s hleads
  obtain ⟨s', hended⟩ := returned_of_ended (b := .csim rtl) hright rfl
  obtain ⟨k, hrun⟩ := Steps.exists_of_reflTransGen hreach
  refine ⟨r, hr, k, t, hleft, fun i n hn => ?_⟩
  have hstuck : Net.Stuck fifo t := Net.stuck_of_done hleft hended
  obtain ⟨hle, hrest⟩ := Steps.complete (fun _ _ _ => Net.step_diamond) hrun hstuck hn
  obtain ⟨honly, hwait, -⟩ := JoinCall.every_interleaving s hleads hn.reflTransGen
  exact ⟨hle, hrest, fun hblocked => hblocked.left.ne_ret _ (hwait hblocked.stuck), honly⟩

/-- A call with one row on each side. -/
def oneRowCall : JoinCall :=
  (FpgaClient.new {}).call 0 {} [(5, ⟨1, 1⟩)] [(5, ⟨2, 1⟩)]

theorem admitted_oneRow : oneRowCall.Admitted :=
  ⟨by decide, by decide, by decide, Or.inl ⟨rfl, by decide, by decide⟩⟩

theorem every_interleaving_joins_oneRow :
    2 ≤ oneRowCall.window ∧ ∃ k t, t.left.proc = .ret (.ok [(⟨1, 1⟩, ⟨2, 1⟩)]) ∧
      ∀ i n, Steps (Net.Step fifo) i (oneRowCall.link (.csim {}) default) n →
        i ≤ k ∧ Steps (Net.Step fifo) (k - i) n t ∧ ¬ n.Blocked ∧
          ∀ r', n.left.proc = .ret r' → r' = .ok [(⟨1, 1⟩, ⟨2, 1⟩)] := by
  refine ⟨by decide, ?_⟩
  obtain ⟨r, hr, hall⟩ :=
    every_interleaving_joins (j := oneRowCall) {} default admitted_oneRow (by decide)
  obtain ⟨rs, rfl, -, hpairs⟩ := hr.pairs (Or.inl ⟨rfl, by decide⟩)
  obtain rfl := hpairs rfl
  exact hall

end JoinCall

end FpgaHashJoin
