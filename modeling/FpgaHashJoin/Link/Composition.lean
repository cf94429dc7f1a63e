import FpgaHashJoin.Host.Events
import FpgaHashJoin.Kernel.Sessions
import FpgaHashJoin.Process.Joint

/-!
# Client and kernel joined

`run_hash_join` over `hash_join_kernel`, joined by two channels that keep the order of their
bytes. A schedule of whole frames, in which the kernel takes some frames and the client then
hears all that the kernel has sent, is a schedule of the network (`Leads.reach`). As the steps
of the two sides commute, such a schedule settles what every interleaving comes to.
-/

namespace FpgaHashJoin

open Process KState

abbrev Link := Net AckWaitKind Site UInt8 UInt8 Packet TxFrame JoinResult Session

/-- Two reliable channels in which nobody runs out of patience. -/
def fifo : Medium UInt8 UInt8 Packet TxFrame := Medium.reliable Packet.bytes TxFrame.bytes

/-- A call of the client over a kernel that has just been started. -/
def JoinCall.link (j : JoinCall) (b : Build) (s : Session) : Link :=
  Net.start j.runHashJoin (hashJoinKernel b s)

/-! ## What the client hears -/

/-- What a frame is to a wait, by what the machine of the kernel keeps of it. -/
def JoinCall.heardOut (j : JoinCall) (kind : AckWaitKind) : KOut → Heard
  | .ack a => j.heard kind (.ack a)
  | .status a => j.heard kind (.status a)
  | .error code => .failure (.fpgaError code)
  | .results pairs => .more pairs
  | .timing => .more []

theorem JoinCall.heard_of_obs {j : JoinCall} {f : TxFrame} {o : KOut} (kind : AckWaitKind)
    (h : f.obs = [o]) : j.heard kind f = j.heardOut kind o := by
  cases f <;> cases h <;> rfl

theorem JoinCall.heard_of_unobserved {j : JoinCall} {f : TxFrame} (kind : AckWaitKind)
    (h : f.obs = []) : j.heard kind f = .more [] := by
  cases f with
  | debug level code value => rfl
  | _ => cases h

@[simp] theorem CState.more_nil (st : CState) : st.more [] = st := by
  cases st <;> simp [CState.more]

/-- The reaction of a wait to one frame. -/
def CState.hearOut (j : JoinCall) (st : CState) (o : KOut) : CReaction :=
  st.hear j (j.heardOut st.kind o)

/-- The client hears the frames and sends packets. When the call has ended, the rest is not
read. -/
inductive Hears (j : JoinCall) : CState → List KOut → List Packet → CState → Prop where
  | nil (st : CState) : Hears j st [] [] st
  | finished (r : JoinResult) (os : List KOut) : Hears j (.finished r) os [] (.finished r)
  | cons {st st' : CState} {o : KOut} {os : List KOut} {ps : List Packet}
      (hst : ∀ r, st ≠ .finished r) (h : Hears j (st.hearOut j o).2 os ps st') :
      Hears j st (o :: os) ((st.hearOut j o).1 ++ ps) st'

/-- A RESULT frame that the decoder accepts. -/
def KOut.Sound : KOut → Prop
  | .results pairs => pairs ≠ [] ∧ pairs.length ≤ txBufSize
  | _ => True

theorem wellFormed_of_obs {f : TxFrame} (h : ∀ o ∈ f.obs, o.Sound) : f.WellFormed := by
  cases f with
  | results pairs => exact h (.results pairs) List.mem_cons_self
  | _ => trivial

/-- The machine of the client takes the frames of which it hears. -/
theorem Hears.path {j : JoinCall} {st st' : CState} {ps : List Packet} {outs : List TxFrame}
    (h : Hears j st (outs.flatMap TxFrame.obs) ps st')
    (hsound : ∀ o ∈ outs.flatMap TxFrame.obs, o.Sound) :
    ∃ done rest l, outs = done ++ rest ∧ j.machine.Path st (done.map .frame) l ps st' ∧
      (rest = [] ∨ ∃ r, st' = .finished r) := by
  induction outs generalizing st ps with
  | nil =>
    generalize hos : ([] : List TxFrame).flatMap TxFrame.obs = os at h
    cases h with
    | nil => exact ⟨[], [], [], rfl, .nil _, Or.inl rfl⟩
    | finished r => exact ⟨[], [], [], rfl, .nil _, Or.inl rfl⟩
    | cons => cases hos
  | cons f outs ih =>
    by_cases hfin : ∃ r, st = .finished r
    · obtain ⟨r, rfl⟩ := hfin
      generalize (f :: outs).flatMap TxFrame.obs = os at h
      cases h with
      | nil => exact ⟨[], f :: outs, [], rfl, .nil _, Or.inr ⟨r, rfl⟩⟩
      | finished => exact ⟨[], f :: outs, [], rfl, .nil _, Or.inr ⟨r, rfl⟩⟩
      | cons hst => exact absurd rfl (hst r)
    have hst : ∀ r, st ≠ .finished r := fun r hr => hfin ⟨r, hr⟩
    have hf : f.WellFormed := wellFormed_of_obs fun o ho =>
      hsound o (List.mem_flatMap.mpr ⟨f, List.mem_cons_self, ho⟩)
    have hstep := JoinCall.step_of_valid (j := j) hst (e := .frame f) hf
    have hsound' : ∀ o ∈ outs.flatMap TxFrame.obs, o.Sound := fun o ho =>
      hsound o (List.mem_append_right _ ho)
    have hfirst : st.react j (.frame f) = st.hear j (j.heard st.kind f) := rfl
    rw [List.flatMap_cons] at h
    rcases hobs : f.obs with _ | ⟨o, os⟩
    · -- a debug frame changes nothing
      rw [hobs, List.nil_append] at h
      rw [hfirst, JoinCall.heard_of_unobserved _ hobs, CState.hear, CState.more_nil] at hstep
      obtain ⟨done, rest, l, rfl, hpath, hend⟩ := ih h hsound'
      exact ⟨f :: done, rest, _, rfl, .cons hstep hpath, hend⟩
    · have hos : os = [] := by
        cases f <;> cases hobs <;> rfl
      subst hos
      rw [hobs, List.singleton_append] at h
      rw [hfirst, JoinCall.heard_of_obs _ hobs] at hstep
      cases h with
      | finished r => exact absurd rfl (hst r)
      | cons _ h =>
        obtain ⟨done, rest, l, rfl, hpath, hend⟩ := ih h hsound'
        exact ⟨f :: done, rest, _, rfl, .cons hstep hpath, hend⟩

/-! ## Schedules of whole frames -/

/-- How a schedule ends: the call returns and the kernel has ended the session, or both sides wait
and nothing is under way. -/
inductive Outcome where
  | returns (r : JoinResult)
  | rests (cst : CState) (kst : KState)

/-- From a state in which the frames `way` are under way to the kernel and nothing to the
client, taking frames in some order leads to the outcome. -/
inductive Leads (j : JoinCall) (b : Build) :
    CState → List HostFrame → KState → Outcome → Prop where
  | finished (r : JoinResult) (way : List HostFrame) :
      Leads j b (.finished r) way (endSession b).2 (.returns r)
  | rests {cst : CState} (hst : ∀ r, cst ≠ .finished r) (kst : KState) :
      Leads j b cst [] kst (.rests cst kst)
  | round {cst cst' : CState} {fs gs : List HostFrame} {kst kst' : KState} {os : List KOut}
      {ps : List Packet} {o : Outcome} (hst : ∀ r, cst ≠ .finished r)
      (hk : Plays b ([], kst) fs os kst') (hsound : ∀ o ∈ os, o.Sound) (hc : Hears j cst os ps cst')
      (h : Leads j b cst' (gs ++ ps.flatten) kst' o) : Leads j b cst (fs ++ gs) kst o

/-- The client waits in `cst` with an empty inbox, the kernel in `kst` in front of `way`. -/
def Link.Stands (j : JoinCall) (b : Build) (cst : CState) (way : List HostFrame) (kst : KState)
    (n : Link) : Prop :=
  Net.Rests j.machine (kernelMachine b) cst [] kst (Packet.bytes way) n

def Outcome.Holds (j : JoinCall) (b : Build) : Outcome → Link → Prop
  | .returns r, n => n.left.proc = .ret r ∧ (kernelMachine b).Rep (endSession b).2 n.right.proc
  | .rests cst kst, n => n.Stands j b cst [] kst

theorem Packet.bytes_append (p q : Packet) : Packet.bytes (p ++ q) = p.bytes ++ q.bytes :=
  List.flatMap_append

theorem Packet.bytes_flatten (ps : List Packet) :
    Packet.bytes ps.flatten = ps.flatMap Packet.bytes := by
  induction ps with
  | nil => rfl
  | cons p ps ih => rw [List.flatten_cons, Packet.bytes_append, ih, List.flatMap_cons]

section Reach

variable {j : JoinCall} {b : Build} {cst : CState} {way : List HostFrame} {kst : KState}
  {o : Outcome} {n : Link}

/-- The frames of a packet, as the kernel reads them. -/
theorem vals_of_frames (fs : List HostFrame) :
    (fs.map KEvent.frame).flatMap (kernelMachine b).vals = (Packet.bytes fs).map some := by
  rw [Packet.bytes, List.map_flatMap, List.flatMap_map]
  rfl

theorem Leads.eq_of_finished {r : JoinResult} (h : Leads j b (.finished r) way kst o) :
    o = .returns r ∧ kst = (endSession b).2 := by
  generalize hst : CState.finished r = st at h
  cases h with
  | finished => exact ⟨by rw [CState.finished.inj hst], rfl⟩
  | rests hne => exact absurd hst.symm (hne r)
  | round hne => exact absurd hst.symm (hne r)

/-- **A schedule of whole frames is one of the network.** -/
theorem Leads.reach (h : Leads j b cst way kst o) (hn : n.Stands j b cst way kst) :
    ∃ m : Link, Net.Reach fifo n m ∧ o.Holds j b m := by
  induction h generalizing n with
  | finished r => exact ⟨n, Net.Reach.refl _ _, JoinCall.Rep.finished hn.left, hn.right⟩
  | rests => exact ⟨n, Net.Reach.refl _ _, hn⟩
  | @round cst cst' fs gs kst kst' os ps o _ hk hsound hc hrest ih =>
    obtain ⟨l, os', hpath, hos⟩ := hk
    obtain rfl : os = os' := hos
    unfold Link.Stands at hn
    rw [Packet.bytes_append] at hn
    obtain ⟨outs, m₁, hreach₁, hobs, hm₁⟩ :=
      hn.right_takes (f := Packet.bytes) (g := TxFrame.bytes) hpath (vals_of_frames fs)
    have hobs' : outs.flatMap TxFrame.obs = os := hobs
    rw [← hobs'] at hc hsound
    obtain ⟨done, rest, l', rfl, hpath', hend⟩ := hc.path hsound
    rw [List.nil_append, List.flatMap_append] at hm₁
    obtain ⟨sent, m₂, hreach₂, hsent, hm₂⟩ :=
      hm₁.left_takes (f := Packet.bytes) (g := TxFrame.bytes) hpath' (JoinCall.vals_of_frames done)
    rw [JoinCall.flatMap_obs] at hsent
    subst hsent
    have hreach : Net.Reach fifo n m₂ := hreach₁.trans hreach₂
    rcases hend with rfl | ⟨r', rfl⟩
    · rw [← Packet.bytes_flatten, ← Packet.bytes_append] at hm₂
      obtain ⟨m, hreach₃, hm⟩ := ih hm₂
      exact ⟨m, hreach.trans hreach₃, hm⟩
    · obtain ⟨rfl, rfl⟩ := hrest.eq_of_finished
      exact ⟨m₂, hreach, JoinCall.Rep.finished hm₂.left, hm₂.right⟩

end Reach

/-- The call has sent CONFIGURE, and the kernel waits for it. -/
theorem JoinCall.link_stands (j : JoinCall) (b : Build) (s : Session) :
    ∃ n : Link, Net.Reach fifo (j.link b s) n ∧ n.Stands j b .config j.configurePacket .idle := by
  obtain ⟨q, hstart, hq⟩ := j.runs_start
  obtain ⟨outs, p, hrun, hobs, hp⟩ := kernel_enters b s
  obtain ⟨n, hreach, hn⟩ :=
    Net.rests_start (f := Packet.bytes) (g := TxFrame.bytes) hstart hq hrun hp
  -- a synthesised kernel may have sent a debug frame
  have hobs' : outs.flatMap TxFrame.obs = [] := hobs
  have hears : Hears j .config (outs.flatMap TxFrame.obs) [] .config := by
    rw [hobs']
    exact .nil _
  obtain ⟨done, rest, l, rfl, hpath, hend⟩ := hears.path (by simp [hobs'])
  obtain rfl : rest = [] := by
    rcases hend with hnil | ⟨r, hr⟩
    · exact hnil
    · cases hr
  rw [List.append_nil, ← List.append_nil (done.flatMap TxFrame.bytes), List.flatMap_singleton] at hn
  obtain ⟨sent, m, hreach', hsent, hm⟩ :=
    hn.left_takes (f := Packet.bytes) (g := TxFrame.bytes) hpath (JoinCall.vals_of_frames done)
  rw [JoinCall.flatMap_obs] at hsent
  subst hsent
  rw [List.flatMap_nil, List.append_nil] at hm
  exact ⟨m, hreach.trans hreach', hm⟩

/-- The outcome of a schedule that begins with CONFIGURE is reached. -/
theorem JoinCall.reaches {j : JoinCall} {b : Build} (s : Session) {o : Outcome}
    (h : Leads j b .config j.configurePacket .idle o) :
    ∃ n, Net.Reach fifo (j.link b s) n ∧ o.Holds j b n := by
  obtain ⟨n₀, hreach₀, hn₀⟩ := j.link_stands b s
  obtain ⟨n, hreach, hn⟩ := h.reach hn₀
  exact ⟨n, hreach₀.trans hreach, hn⟩

/-- What one schedule of whole frames comes to, every interleaving comes to: the call does not
return anything else, and neither side waits in vain before it returns. -/
theorem JoinCall.every_interleaving {j : JoinCall} {b : Build} (s : Session) {r : JoinResult}
    (h : Leads j b .config j.configurePacket .idle (.returns r)) {n : Link}
    (hn : Net.Reach fifo (j.link b s) n) :
    (∀ r', n.left.proc = .ret r' → r' = r) ∧ (Net.Stuck fifo n → n.left.proc = .ret r) ∧
      ∃ m, Net.Reach fifo n m ∧ m.left.proc = .ret r := by
  obtain ⟨t, hend, ht, -⟩ := JoinCall.reaches s h
  obtain ⟨c, htc, hnc⟩ := Net.Reach.confluent hend hn
  have hc : c.left.proc = .ret r := htc.left_done ht
  refine ⟨fun r' hr' => ?_, fun hstuck => Net.Stuck.left_done hend ht hn hstuck, c, hnc, hc⟩
  have hc' : c.left.proc = .ret r' := hnc.left_done hr'
  rw [hc] at hc'
  exact (Proc.ret.inj hc').symm

end FpgaHashJoin
