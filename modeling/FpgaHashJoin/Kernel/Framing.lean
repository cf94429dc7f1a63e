import FpgaHashJoin.Kernel.Simulation

/-!
# Frame boundaries

In the synthesis build the kernel runs its sessions back to back on one stream of bytes. A
message type is read at one place of the program only, so the question is which bytes of the
stream are read there. A frame whose type the current phase does not expect is rejected
after its header; the session ends and the next one begins to read where the first one has
stopped, in front of the payload. These are the only frames that move the kernel off the
frame boundaries: the stream is parsed as it was sent if and only if no frame with a payload
arrives in a phase that does not expect it.
-/

namespace FpgaHashJoin

open Process KState GraceHashEngine

/-! ## Header and payload -/

def HostFrame.type : HostFrame → MsgType
  | .configure _ => .configure
  | .data msg _ _ => msg.type
  | .reset => .reset

def HostFrame.count : HostFrame → Nat
  | .configure _ => 1
  | .data _ _ ts => ts.length
  | .reset => 0

def HostFrame.payload : HostFrame → List UInt8
  | .configure p => configureBytes p
  | .data _ w ts => ts.flatMap (TupleSerializer.putTuple w)
  | .reset => []

theorem HostFrame.bytes_eq (f : HostFrame) :
    f.bytes = hostHeader f.type f.count ++ f.payload := by
  cases f with
  | configure p =>
    simp [bytes, type, count, payload, hostHeader, configureBytes,
      TupleSerializer.serializeConfigure, TupleSerializer.putU8, TupleSerializer.putU16,
      TupleSerializer.putU32]
  | data msg w ts => exact bytes_data msg w ts
  | reset => simp [bytes, type, count, payload]

theorem length_hostHeader (type : MsgType) (count : Nat) : (hostHeader type count).length = 3 :=
  rfl

theorem HostFrame.payload_eq_nil {f : HostFrame} : f.payload = [] ↔ f.bytes.length = 3 := by
  rw [bytes_eq, List.length_append, length_hostHeader, ← List.length_eq_zero_iff]
  omega

/-- The frames that a phase takes with their payload. -/
def KState.expects : KState → HostFrame → Bool
  | _, .reset => true
  | .idle, .configure _ => true
  | .build _ _ _ _, .data .inner _ _ => true
  | .graceBuild _ _ _, .data .inner _ _ => true
  | .probe _ _ _ _ _ _, .data .outer _ _ => true
  | .graceProbe _ _ _ _, .data .outer _ _ => true
  | _, _ => false

/-- **A frame that the phase does not expect is read up to its header, and the session
ends.** -/
theorem unexpected_reacts {b : Build} {st : KState} {p : KProc Session} {f : HostFrame}
    (hp : Rep b st p) (hended : st ≠ .ended) (h : st.expects f = false) :
    ∃ e : FpgaError,
      Reacts b p (headerReads f.type f.count) (.emit [.error e.code] (endSession b)) := by
  cases st with
  | ended => exact absurd rfl hended
  | idle =>
    obtain ⟨s, rfl⟩ := hp
    cases f with
    | configure | reset => cases h
    | data msg w ts =>
      exact ⟨_, idle_reject s msg.type ts.length (by cases msg <;> decide)
        (by cases msg <;> decide)⟩
  | build c frame pending inner =>
    obtain ⟨v, hv, rfl⟩ := hp
    cases f with
    | reset => cases h
    | configure p => exact ⟨_, build_reject v .configure 1 (by decide) (by decide)⟩
    | data msg w ts =>
      cases msg with
      | inner => cases h
      | outer =>
        exact ⟨_, build_reject v .outerData ts.length (by decide) (by decide)⟩
  | probe c frame pending inner seen buf =>
    obtain ⟨v, n, hv, rfl⟩ := hp
    cases f with
    | reset => cases h
    | configure p => exact ⟨_, probe_reject v .configure 1 (by decide) (by decide)⟩
    | data msg w ts =>
      cases msg with
      | outer => cases h
      | inner =>
        exact ⟨_, probe_reject v .innerData ts.length (by decide) (by decide)⟩
  | graceBuild c frame inner =>
    obtain ⟨s, v, hs, hv, rfl⟩ := hp
    cases f with
    | reset => cases h
    | configure p =>
      exact ⟨_, grace_ends (fun _ => goes_graceBuildEnded)
        (partitionFrame_reject _ _ c v .configure 1 (by decide) (by simp [innerSide, DataMsg.type]))⟩
    | data msg w ts =>
      cases msg with
      | inner => cases h
      | outer =>
        exact ⟨_, grace_ends (fun _ => goes_graceBuildEnded)
          (partitionFrame_reject _ _ c v .outerData ts.length (by decide)
            (by simp [innerSide, DataMsg.type]))⟩
  | graceProbe c frame inner outer =>
    obtain ⟨s, v, hs, hst, hv, rfl⟩ := hp
    cases f with
    | reset => cases h
    | configure p =>
      exact ⟨_, grace_ends (fun _ => goes_graceProbeEnded)
        (partitionFrame_reject _ _ c v .configure 1 (by decide) (by simp [outerSide, DataMsg.type]))⟩
    | data msg w ts =>
      cases msg with
      | outer => cases h
      | inner =>
        exact ⟨_, grace_ends (fun _ => goes_graceProbeEnded)
          (partitionFrame_reject _ _ c v .innerData ts.length (by decide)
            (by simp [outerSide, DataMsg.type]))⟩

/-! ## The configured width -/

def KState.conf? : KState → Option Conf
  | .idle => none
  | .build c _ _ _ => some c
  | .probe c _ _ _ _ _ => some c
  | .graceBuild c _ _ => some c
  | .graceProbe c _ _ _ => some c
  | .ended => none

section Conf

variable {b : Build}

/-- The session goes on with the configuration or ends. -/
def Reaction.Keeps (b : Build) (c : Conf) (r : Reaction) : Prop :=
  r.2 = (endSession b).2 ∨ r.2.conf? = some c

theorem Reaction.Keeps.ended (c : Conf) (os : List KOut) :
    Reaction.Keeps b c (.emit os (endSession b)) :=
  Or.inl rfl

theorem Reaction.Keeps.emit {c : Conf} {r : Reaction} (os : List KOut) (h : r.Keeps b c) :
    Reaction.Keeps b c (.emit os r) :=
  h

theorem enterProbe_keeps (c : Conf) (frame pending : Nat) (inner seen : List InputTuple)
    (buf : List ResultPair) : (enterProbe b c frame pending inner seen buf).Keeps b c := by
  unfold enterProbe
  split
  · exact Or.inr rfl
  · exact .ended c _

theorem enterBuild_keeps (c : Conf) (frame pending : Nat) (inner : List InputTuple) :
    (enterBuild b c frame pending inner).Keeps b c := by
  unfold enterBuild
  split
  · exact Or.inr rfl
  · exact enterProbe_keeps c 0 0 inner [] []

theorem buildStep_keeps (c : Conf) (frame pending : Nat) (inner ts : List InputTuple) :
    (buildStep b c frame pending inner ts).Keeps b c := by
  unfold buildStep
  dsimp only
  split
  · split
    · exact (enterBuild_keeps c _ _ _).emit _
    · exact enterBuild_keeps c _ _ _
  · exact .ended c _

theorem probeStep_keeps (c : Conf) (frame pending : Nat) (inner seen : List InputTuple)
    (buf : List ResultPair) (ts : List InputTuple) :
    (probeStep b c frame pending inner seen buf ts).Keeps b c := by
  unfold probeStep
  dsimp only
  apply Reaction.Keeps.emit
  split
  · exact .ended c _
  · split
    · exact (enterProbe_keeps c _ _ _ _ _).emit _
    · exact enterProbe_keeps c _ _ _ _ _

theorem enterGraceProbe_keeps (c : Conf) (frame : Nat) (inner outer : List InputTuple) :
    (enterGraceProbe b c frame inner outer).Keeps b c := by
  unfold enterGraceProbe
  split
  · exact Or.inr rfl
  · unfold graceFinish
    dsimp only
    apply Reaction.Keeps.emit
    split
    · exact .ended c _
    · exact Or.inl rfl

theorem enterGraceBuild_keeps (c : Conf) (frame : Nat) (inner : List InputTuple) :
    (enterGraceBuild b c frame inner).Keeps b c := by
  unfold enterGraceBuild
  split
  · exact Or.inr rfl
  · exact enterGraceProbe_keeps c 0 inner []

theorem graceBuildStep_keeps (c : Conf) (frame : Nat) (inner ts : List InputTuple) :
    (graceBuildStep b c frame inner ts).Keeps b c := by
  unfold graceBuildStep
  split
  · exact (enterGraceBuild_keeps c _ _).emit _
  · exact .ended c _

theorem graceProbeStep_keeps (c : Conf) (frame : Nat) (inner outer ts : List InputTuple) :
    (graceProbeStep b c frame inner outer ts).Keeps b c := by
  unfold graceProbeStep
  split
  · exact (enterGraceProbe_keeps c _ _ _).emit _
  · exact .ended c _

theorem configureStep_keeps (p : ConfigurePayload) :
    ∃ c : Conf, c.keyType = KeyType.ofCode p.keyType ∧ (configureStep b p).Keeps b c := by
  unfold configureStep
  split
  · exact ⟨⟨p.sessionId, KeyType.ofCode p.keyType, 0, 0, 0, 0⟩, rfl, .ended _ _⟩
  next K outerSlotW _ =>
    refine ⟨⟨p.sessionId, KeyType.ofCode p.keyType, p.innerCount.toNat, p.outerCount.toNat, K,
      outerSlotW⟩, rfl, ?_⟩
    dsimp only
    apply Reaction.Keeps.emit
    split
    · exact enterGraceBuild_keeps _ 0 []
    · exact enterBuild_keeps _ 0 0 []

/-- The key width that an event configures. -/
def KEvent.width? : KEvent → Option KeyType
  | .frame (.configure p) => some (KeyType.ofCode p.keyType)
  | _ => none

/-- The key width of the last CONFIGURE. -/
def configuredWidth (es : List KEvent) : Option KeyType := (es.filterMap KEvent.width?).getLast?

theorem configuredWidth_snoc (es : List KEvent) (e : KEvent) :
    configuredWidth (es ++ [e]) = e.width?.or (configuredWidth es) := by
  unfold configuredWidth
  rw [List.filterMap_append]
  cases h : e.width? with
  | none => simp [h]
  | some w => simp [h]

/-- What a step does with the configuration: it ends the session, keeps the configuration,
or takes a new one from a CONFIGURE. -/
theorem step_conf {st : KState} {e : KEvent} {r : Reaction} (h : step b st e = some r) :
    r.2 = (endSession b).2 ∨
      ∃ c, r.2.conf? = some c ∧ (e.width?.or (st.conf?.map Conf.keyType) = some c.keyType) := by
  have hreject : ∀ {f : HostFrame} {err : FpgaError}, reject b f err = some r →
      r.2 = (endSession b).2 := by
    intro f err hr
    rw [(reject_eq_some hr).2]
    rfl
  have hkeeps : ∀ {c : Conf}, e.width? = none → st.conf? = some c → r.Keeps b c →
      r.2 = (endSession b).2 ∨ ∃ c, r.2.conf? = some c ∧
        (e.width?.or (st.conf?.map Conf.keyType) = some c.keyType) := by
    intro c he hc hr
    refine hr.imp_right fun hr => ⟨c, hr, ?_⟩
    simp [he, hc]
  match st, e, h with
  | .idle, .watchdog, h | .idle, .frame .reset, h | .build _ _ _ _, .watchdog, h
  | .build _ _ _ _, .frame .reset, h | .probe _ _ _ _ _ _, .watchdog, h
  | .probe _ _ _ _ _ _, .frame .reset, h | .graceBuild _ _ _, .frame .reset, h
  | .graceProbe _ _ _ _, .frame .reset, h =>
    cases h
    exact Or.inl rfl
  | .idle, .frame (.configure p), h =>
    cases h
    obtain ⟨c, hc, hkeep⟩ := configureStep_keeps (b := b) p
    exact hkeep.imp_right fun hkeep => ⟨c, hkeep, by simp [KEvent.width?, hc]⟩
  | .idle, .frame (.data _ _ _), h | .build _ _ _ _, .frame (.configure _), h
  | .build _ _ _ _, .frame (.data .outer _ _), h | .probe _ _ _ _ _ _, .frame (.configure _), h
  | .probe _ _ _ _ _ _, .frame (.data .inner _ _), h
  | .graceBuild _ _ _, .frame (.configure _), h
  | .graceBuild _ _ _, .frame (.data .outer _ _), h
  | .graceProbe _ _ _ _, .frame (.configure _), h
  | .graceProbe _ _ _ _, .frame (.data .inner _ _), h => exact Or.inl (hreject h)
  | .build c _ _ _, .frame (.data .inner _ _), h =>
    obtain ⟨rows, -, rfl⟩ := Option.map_eq_some_iff.mp h
    exact hkeeps rfl rfl (buildStep_keeps c _ _ _ _)
  | .probe c _ _ _ _ _, .frame (.data .outer _ _), h =>
    obtain ⟨rows, -, rfl⟩ := Option.map_eq_some_iff.mp h
    exact hkeeps rfl rfl (probeStep_keeps c _ _ _ _ _ _)
  | .graceBuild c _ _, .frame (.data .inner _ _), h =>
    obtain ⟨rows, -, rfl⟩ := Option.map_eq_some_iff.mp h
    exact hkeeps rfl rfl (graceBuildStep_keeps c _ _ _)
  | .graceProbe c _ _ _, .frame (.data .outer _ _), h =>
    obtain ⟨rows, -, rfl⟩ := Option.map_eq_some_iff.mp h
    exact hkeeps rfl rfl (graceProbeStep_keeps c _ _ _ _)

/-- A session uses the key width of the last CONFIGURE. -/
theorem conf_of_path {st : KState} {es : List KEvent} {l : List (Site × Option UInt8)}
    {os : List KOut} {c : Conf} (h : (kernelMachine b).Path .idle es l os st)
    (hc : st.conf? = some c) : configuredWidth es = some c.keyType := by
  -- along the path, with the events before the current state as accumulator
  suffices hacc : ∀ (s : KState) (pre : List KEvent),
      (∀ c, s.conf? = some c → configuredWidth pre = some c.keyType) →
      (kernelMachine b).Path s es l os st → configuredWidth (pre ++ es) = some c.keyType by
    exact hacc .idle [] (by simp [KState.conf?]) h
  clear h
  intro s pre hpre h
  induction h generalizing pre with
  | nil s => simpa using hpre c hc
  | @cons s s' t e es l os os' hstep _ ih =>
    have hnext := ih hc (pre ++ [e]) fun c' hc' => by
      rw [configuredWidth_snoc]
      rcases step_conf hstep with hend | ⟨c₁, hc₁, hwidth⟩
      · dsimp only at hend
        rw [hend, endSession] at hc'
        cases hsyn : b.synthesis <;> simp [hsyn, KState.conf?] at hc'
      · obtain rfl : c₁ = c' := Option.some.inj (hc₁.symm.trans hc')
        cases hconf : s.conf? with
        | none =>
          rw [hconf] at hwidth
          cases he : e.width? <;> simp_all
        | some c₂ =>
          rw [hpre c₂ hconf]
          simpa [hconf] using hwidth
    simpa using hnext

/-- The kernel of the synthesis build does not return. -/
theorem not_ended_of_path (hb : b.synthesis = true) {s st : KState} {es : List KEvent}
    {l : List (Site × Option UInt8)} {os : List KOut}
    (h : (kernelMachine b).Path s es l os st) (hs : s ≠ .ended) : st ≠ .ended := by
  induction h with
  | nil s => exact hs
  | cons hstep _ ih =>
    apply ih
    rcases step_conf hstep with hend | ⟨c, hc, -⟩
    · dsimp only at hend
      simp [hend, endSession, hb]
    · rintro rfl
      cases hc

end Conf

/-! ## Which bytes are read as a message type -/

theorem tagged_site {site : Site} {xs : List UInt8} {r : Site × Option UInt8}
    (h : r ∈ tagged site xs) : r.1 = site := by
  obtain ⟨x, -, rfl⟩ := List.mem_map.mp h
  rfl

/-- An event begins with the read of a message type and has no other such read. -/
theorem KEvent.reads_eq (e : KEvent) :
    ∃ v rest, e.reads = (.msgType, v) :: rest ∧ (v.isSome → ∃ f, e = .frame f) ∧
      ∀ r ∈ rest, r.1 ≠ .msgType := by
  cases e with
  | watchdog => exact ⟨none, [], rfl, by simp, by simp⟩
  | frame f =>
    cases f with
    | configure p =>
      refine ⟨_, _, rfl, fun _ => ⟨_, rfl⟩, fun r hr => ?_⟩
      rcases List.mem_append.mp hr with hr | hr <;> simp [tagged_site hr]
    | reset =>
      refine ⟨_, _, rfl, fun _ => ⟨_, rfl⟩, fun r hr => ?_⟩
      simp [tagged_site hr]
    | data msg w ts =>
      refine ⟨_, _, rfl, fun _ => ⟨_, rfl⟩, fun r hr => ?_⟩
      rcases List.mem_append.mp hr with hr | hr
      · simp [tagged_site hr]
      · obtain ⟨t, -, ht⟩ := List.mem_flatMap.mp hr
        rcases List.mem_append.mp ht with ht | ht <;> simp [tagged_site ht]

/-- Every byte that is read as a message type is the first byte of a frame of the stream. -/
def Aligned (es : List KEvent) (ins : List (Site × Option UInt8)) : Prop :=
  ∀ pre v post, ins = pre ++ (.msgType, some v) :: post →
    ∃ done f todo, es = done ++ .frame f :: todo ∧ pre.map Prod.snd = done.flatMap KEvent.vals

theorem Aligned.append {es : List KEvent} {ins : List (Site × Option UInt8)} (h : Aligned es ins)
    (todo : List KEvent) : Aligned (es ++ todo) ins := by
  intro pre v post hins
  obtain ⟨done, f, rest, rfl, hpre⟩ := h pre v post hins
  exact ⟨done, f, rest ++ todo, by simp, hpre⟩

private theorem skip_reads {rest l pre post : List (Site × Option UInt8)}
    {x : Site × Option UInt8} (hrest : x ∉ rest) (h : pre ++ x :: post <+: rest ++ l) :
    ∃ pre', pre = rest ++ pre' ∧ pre' ++ x :: post <+: l := by
  induction rest generalizing pre with
  | nil => exact ⟨pre, rfl, h⟩
  | cons y rest ih =>
    rw [List.mem_cons, not_or] at hrest
    cases pre with
    | nil => exact absurd (List.cons_prefix_cons.mp h).1 hrest.1
    | cons z pre =>
      obtain ⟨rfl, h'⟩ := List.cons_prefix_cons.mp h
      obtain ⟨pre', rfl, hpre'⟩ := ih hrest.2 h'
      exact ⟨pre', rfl, hpre'⟩

/-- Along the events that the machine accepts the kernel stays on the frame boundaries. -/
theorem aligned_of_path {b : Build} {s t : KState} {es : List KEvent}
    {l ins : List (Site × Option UInt8)} {os : List KOut}
    (h : (kernelMachine b).Path s es l os t) (hins : ins <+: l) : Aligned es ins := by
  intro pre v post heq
  subst heq
  induction h generalizing pre with
  | nil s => simp at hins
  | @cons s s' t e es l os os' hstep _ ih =>
    obtain ⟨v₀, rest, hreads, hframe, hrest⟩ := e.reads_eq
    have hlabel : (kernelMachine b).label s e = (.msgType, v₀) :: rest := hreads
    have hvals : e.vals = v₀ :: rest.map Prod.snd := by
      rw [← e.map_snd_reads, hreads]
      rfl
    rw [hlabel] at hins
    cases pre with
    | nil =>
      obtain ⟨hv, -⟩ := List.cons_prefix_cons.mp hins
      cases hv
      obtain ⟨f, rfl⟩ := hframe rfl
      exact ⟨[], f, es, rfl, rfl⟩
    | cons y pre =>
      obtain ⟨rfl, hins'⟩ := List.cons_prefix_cons.mp hins
      have hmem : (Site.msgType, some v) ∉ rest := fun hr => hrest _ hr rfl
      obtain ⟨pre', rfl, hpre'⟩ := skip_reads hmem hins'
      obtain ⟨done, f, todo, rfl, hdone⟩ := ih pre' hpre'
      refine ⟨e :: done, f, todo, rfl, ?_⟩
      simp [hvals, hdone]

/-! ## Well-formed input -/

/-- DATA frames hold at most as many tuples as the receive buffers, in the width of the last
CONFIGURE. -/
def WellFormedInput (es : List KEvent) : Prop :=
  ∀ done msg w ts todo, es = done ++ .frame (.data msg w ts) :: todo →
    ts.length ≤ rxBufTuples ∧ ∀ k, configuredWidth done = some k → w = k

/-- A frame with a payload only arrives in a phase that expects it. -/
def PayloadsExpected (b : Build) (es : List KEvent) : Prop :=
  ∀ done f todo l os st, es = done ++ .frame f :: todo →
    (kernelMachine b).Path .idle done l os st → f.payload ≠ [] → st.expects f = true

theorem dataRows_isSome {c : Conf} {w : KeyType} {ts : List InputTuple} (hw : w = c.keyType)
    (hlen : ts.length ≤ rxBufTuples) : dataRows c w ts = some (ts.map w.wire) :=
  if_pos ⟨hw, hlen⟩

/-- The frames that the machine does not accept. -/
theorem unexpected_of_step_eq_none {b : Build} {st : KState} {f : HostFrame}
    (h : step b st (.frame f) = none) (hended : st ≠ .ended)
    (hfit : ∀ msg w ts c, f = .data msg w ts → st.conf? = some c →
      w = c.keyType ∧ ts.length ≤ rxBufTuples) : f.payload ≠ [] ∧ st.expects f = false := by
  have hreject : ∀ {e : FpgaError}, reject b f e = none → f.payload ≠ [] := by
    intro e hr hnil
    rw [reject, if_pos (HostFrame.payload_eq_nil.mp hnil)] at hr
    cases hr
  have htakes : ∀ {msg w ts c} {g : List InputTuple → Reaction}, f = .data msg w ts →
      st.conf? = some c → (dataRows c w ts).map g ≠ none := by
    intro msg w ts c g hf hc
    obtain ⟨hw, hlen⟩ := hfit msg w ts c hf hc
    rw [dataRows_isSome hw hlen]
    simp
  match st, f, h with
  | .ended, _, _ => exact absurd rfl hended
  | .idle, .data msg _ _, h => exact ⟨hreject h, by cases msg <;> rfl⟩
  | .build _ _ _ _, .configure _, h
  | .build _ _ _ _, .data .outer _ _, h | .probe _ _ _ _ _ _, .configure _, h
  | .probe _ _ _ _ _ _, .data .inner _ _, h | .graceBuild _ _ _, .configure _, h
  | .graceBuild _ _ _, .data .outer _ _, h | .graceProbe _ _ _ _, .configure _, h
  | .graceProbe _ _ _ _, .data .inner _ _, h => exact ⟨hreject h, rfl⟩
  | .build _ _ _ _, .data .inner _ _, h | .probe _ _ _ _ _ _, .data .outer _ _, h
  | .graceBuild _ _ _, .data .inner _ _, h | .graceProbe _ _ _ _, .data .outer _ _, h =>
    exact absurd h (htakes rfl rfl)

/-- The machine accepts a first part of every list of events, up to an event that it does not
accept. -/
theorem exists_accepted (b : Build) (s : KState) (es : List KEvent) :
    ∃ done todo l os st, es = done ++ todo ∧ (kernelMachine b).Path s done l os st ∧
      ∀ e ∈ todo.head?, step b st e = none := by
  induction es generalizing s with
  | nil => exact ⟨[], [], [], [], s, rfl, .nil s, by simp⟩
  | cons e es ih =>
    cases h : step b s e with
    | none => exact ⟨[], e :: es, [], [], s, rfl, .nil s, by simpa using h⟩
    | some r =>
      obtain ⟨done, todo, l, os, st, rfl, hpath, hhead⟩ := ih r.2
      exact ⟨e :: done, todo, _, _, st, rfl, .cons h hpath, hhead⟩

/-! ## The kernel stays on the frame boundaries -/

section Boundaries

variable {b : Build} {es done todo : List KEvent} {f : HostFrame} {st : KState}
  {l ins : List (Site × Option UInt8)} {os : List KOut} {p q : KProc Session}
  {outs : List TxFrame} {s : Session}

/-- Where the machine does not accept the watchdog the kernel waits without one. -/
theorem recv_of_watchdog_eq_none (hp : Rep b st p) (hended : st ≠ .ended)
    (h : step b st .watchdog = none) : ∃ site k, p.view = .recv site k := by
  cases st with
  | ended => exact absurd rfl hended
  | idle => cases h
  | build => cases h
  | probe => cases h
  | graceBuild =>
    obtain ⟨s, v, -, -, rfl⟩ := hp
    exact ⟨.msgType, _, rfl⟩
  | graceProbe =>
    obtain ⟨s, v, -, -, -, rfl⟩ := hp
    exact ⟨.msgType, _, rfl⟩

/-- A run through all the events that lead to a state. -/
theorem run_of_path (h : (kernelMachine b).Path .idle done l os st) (s : Session) :
    ∃ outs p, Runs (hashJoinKernel b s) l outs p ∧ outs.flatMap TxFrame.obs = os ∧
      Rep b st p :=
  h.runs_of_enters (kernel_enters b s)

/-- Beyond the accepted events nothing is read. -/
theorem no_reads_after (hb : b.synthesis = true) (hes : WellFormedInput (done ++ todo))
    (hexp : PayloadsExpected b (done ++ todo))
    (hpath : (kernelMachine b).Path .idle done l os st)
    (hhead : ∀ e ∈ todo.head?, step b st e = none) (hp : Rep b st p) (hrun : Runs p ins outs q)
    (hins : ins.map Prod.snd <+: todo.flatMap KEvent.vals) : ins = [] := by
  have hended := not_ended_of_path hb hpath (by simp)
  match todo, hhead with
  | [], _ => simpa using hins
  | .frame f :: todo, hhead =>
    have hfit : ∀ msg w ts c, f = .data msg w ts → st.conf? = some c →
        w = c.keyType ∧ ts.length ≤ rxBufTuples := by
      rintro msg w ts c rfl hc
      obtain ⟨hlen, hwidth⟩ := hes done msg w ts todo rfl
      exact ⟨hwidth _ (conf_of_path hpath hc), hlen⟩
    obtain ⟨hpay, hno⟩ := unexpected_of_step_eq_none (hhead _ rfl) hended hfit
    rw [hexp done f todo l os st rfl hpath hpay] at hno
    cases hno
  | .watchdog :: todo, hhead =>
    obtain ⟨site, k, hview⟩ := recv_of_watchdog_eq_none hp hended (hhead _ rfl)
    cases hrun with
    | refl => rfl
    | recv => exact absurd (List.cons_prefix_cons.mp hins).1 (by simp)
    | poll hv _ => rw [hview] at hv; cases hv
    | send hv _ => rw [hview] at hv; cases hv
    | tau hv _ => rw [hview] at hv; cases hv

theorem aligned_of_payloadsExpected (hb : b.synthesis = true) (hes : WellFormedInput es)
    (hexp : PayloadsExpected b es) (hrun : Runs (hashJoinKernel b s) ins outs q)
    (hins : ins.map Prod.snd <+: es.flatMap KEvent.vals) : Aligned es ins := by
  obtain ⟨done, todo, l, os, st, rfl, hpath, hhead⟩ := exists_accepted b .idle es
  obtain ⟨outs₁, p, hall, -, hp⟩ := run_of_path hpath s
  have hl : l.map Prod.snd = done.flatMap KEvent.vals := hpath.vals
  rw [List.flatMap_append, ← hl] at hins
  have hcmp := List.prefix_or_prefix_of_prefix (List.prefix_append _ _) hins
  rcases hall.linear hrun hcmp with ⟨ins₂, outs₂, hcont, rfl, rfl⟩ | ⟨ins₂, -, -, rfl, -⟩
  · rw [List.map_append, List.prefix_append_right_inj] at hins
    obtain rfl := no_reads_after hb hes hexp hpath hhead hp hcont hins
    exact (aligned_of_path hpath (by simp)).append todo
  · exact (aligned_of_path hpath (List.prefix_append _ _)).append todo

/-- **Behind a rejected header the payload is read as a message type.** -/
theorem misaligned (hb : b.synthesis = true) (hpath : (kernelMachine b).Path .idle done l os st)
    (hpay : f.payload ≠ []) (hexp : st.expects f = false) (todo : List KEvent) (s : Session) :
    ∃ ins outs q, Runs (hashJoinKernel b s) ins outs q ∧
      ins.map Prod.snd <+: (done ++ .frame f :: todo).flatMap KEvent.vals ∧
      ¬ Aligned (done ++ .frame f :: todo) ins := by
  obtain ⟨outs, p, hrun, -, hp⟩ := run_of_path hpath s
  have hended := not_ended_of_path hb hpath (by simp)
  obtain ⟨e, mid, hread, outs', p', hsend, -, hp'⟩ := unexpected_reacts hp hended hexp
  have hidle : Rep b .idle p' := by simpa [Reaction.emit, endSession, hb] using hp'
  obtain ⟨s', rfl⟩ := hidle
  obtain ⟨x, xs, hx⟩ := List.exists_cons_of_ne_nil hpay
  have hl : l.map Prod.snd = done.flatMap KEvent.vals := hpath.vals
  have hfirst : Runs (configure b s'.init >>= fun s => afterConfigure b s >>= nextSession b)
      [(.msgType, some x)] [] _ := .poll rfl (.refl _)
  have hhead := map_snd_headerReads f.type f.count
  refine ⟨_, _, _, (hrun.trans (hread.trans_nil hsend)).trans hfirst, ?_, ?_⟩
  · refine ⟨xs.map some ++ todo.flatMap KEvent.vals, ?_⟩
    simp [hl, hhead, KEvent.vals, f.bytes_eq, hx]
  · intro hal
    obtain ⟨done', f', todo', hsplit, hpre⟩ := hal _ x [] rfl
    -- the boundary would lie behind the header of the rejected frame, inside this frame
    have hlen := congrArg List.length hpre
    simp only [List.map_append, hl, hhead, List.length_append, List.length_map,
      length_hostHeader] at hlen
    have hf : 3 < f.bytes.length := by
      rw [f.bytes_eq, hx, List.length_append, length_hostHeader, List.length_cons]
      omega
    rcases List.append_eq_append_iff.mp hsplit with ⟨as, rfl, has⟩ | ⟨as, rfl, has⟩
    · cases as with
      | nil => simp at hlen
      | cons a as =>
        obtain ⟨rfl, -⟩ := List.cons.inj has
        simp only [List.flatMap_append, List.flatMap_cons, List.length_append, KEvent.vals,
          List.length_map] at hlen
        omega
    · simp only [List.flatMap_append, List.length_append] at hlen
      omega

/-- **The kernel reads only first bytes of frames as message types if and only if no frame
with a payload arrives in a phase that does not expect it.** -/
theorem aligned_iff_payloadsExpected (hb : b.synthesis = true) (hes : WellFormedInput es)
    (s : Session) :
    (∀ ins outs q, Runs (hashJoinKernel b s) ins outs q →
      ins.map Prod.snd <+: es.flatMap KEvent.vals → Aligned es ins) ↔ PayloadsExpected b es := by
  constructor
  · rintro hal done f todo l os st rfl hpath hpay
    by_contra hexp
    obtain ⟨ins, outs, q, hrun, hins, hnot⟩ :=
      misaligned hb hpath hpay (Bool.eq_false_of_not_eq_true hexp) todo s
    exact hnot (hal ins outs q hrun hins)
  · intro hexp ins outs q hrun hins
    exact aligned_of_payloadsExpected hb hes hexp hrun hins

end Boundaries

/-- A CONFIGURE for one inner row more than the table holds, and the first rows behind it. -/
def refusedSession : List KEvent :=
  [.frame (.configure ⟨AlgorithmType.algorithmA.code, KeyType.int32.code, 512, 12289, 0, 1⟩),
    .frame (.data .inner .int32 [(8, ⟨0, 1⟩)])]

theorem wellFormed_refusedSession : WellFormedInput refusedSession := by
  intro done msg w ts todo h
  match done, h with
  | [_], h =>
    cases h
    exact ⟨by decide, by decide⟩
  | _ :: _ :: _, h => simp [refusedSession] at h

theorem aligned_iff_refusedSession :
    WellFormedInput refusedSession ∧
      ((∀ ins outs q, Runs (hashJoinKernel ⟨true, false, {}⟩ default) ins outs q →
        ins.map Prod.snd <+: refusedSession.flatMap KEvent.vals → Aligned refusedSession ins) ↔
      PayloadsExpected ⟨true, false, {}⟩ refusedSession) :=
  ⟨wellFormed_refusedSession, aligned_iff_payloadsExpected rfl wellFormed_refusedSession default⟩

/-- The rows behind a refused CONFIGURE are parsed as commands. -/
theorem refusedSession_misaligned :
    ∃ ins outs q, Runs (hashJoinKernel ⟨true, false, {}⟩ default) ins outs q ∧
      ins.map Prod.snd <+: refusedSession.flatMap KEvent.vals ∧ ¬ Aligned refusedSession ins := by
  have hstep : (kernelMachine ⟨true, false, {}⟩).step .idle (.frame (.configure
      ⟨AlgorithmType.algorithmA.code, KeyType.int32.code, 512, 12289, 0, 1⟩)) =
      some ([.error FpgaError.overflow.code], .idle) := by
    simp [kernelMachine, step, configureStep, checkConfigure, Reaction.emit, endSession]
  exact misaligned rfl (.single hstep) (by decide) rfl [] default

end FpgaHashJoin
