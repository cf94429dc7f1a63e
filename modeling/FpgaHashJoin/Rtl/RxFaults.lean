import FpgaHashJoin.Rtl.RxStream

/-!
# Frames that are lost and frames that should be

The write buffer is chosen when a payload is complete, and only then. If the other buffer is
occupied at that moment, the next frame will be lost even when that buffer has become free
(`drops_only_if_full_iff`). And a payload is handed to the output stage when its last byte has
come, so a receive error that is reported at the end of the frame comes too late
(`error_frame_ignored_iff`).
-/

namespace FpgaHashJoin.UdpIpv4Rx

variable {p : Params} {s acc r s₀ : Regs} {i : Pins} {cycles : List Pins}

/-! ## Occupied buffers -/

/-- A buffer becomes free only when its last byte is taken. -/
theorem OutCase.bufBusy_eq_or (h : OutCase s i acc) (k : Bool) :
    bufBusy acc k = bufBusy s k ∨
      s.out.active = true ∧ s.out.readBuf = k ∧ bufBusy acc k = false := by
  cases h with
  | start k' hidle hpending hfirst hbufs hout =>
    left
    rw [bufBusy, bufBusy, hbufs, hout, hidle]
    by_cases hk : k' = k
    · subst hk
      simp [hpending]
    · simp [hk]
  | idle hidle hnone hbufs hout => exact .inl (bufBusy_congr hbufs hout k)
  | finish hactive hready hlast hbufs hidle hvalid =>
    by_cases hk : s.out.readBuf = k
    · refine .inr ⟨hactive, hk, ?_⟩
      subst hk
      simp [bufBusy, hbufs, hidle]
    · left
      rw [bufBusy, bufBusy, hbufs, hidle, Function.update_of_ne (Ne.symm hk)]
      simp [hk]
  | advance hactive hready hlast hbufs hout =>
    left
    rw [bufBusy, bufBusy, hbufs, hout]
  | stall hactive hready hbufs hout => exact .inl (bufBusy_congr hbufs hout k)

/-- Where the two occupied buffers stand in the queue. -/
def InOrder (s : Regs) : Prop :=
  bufBusy s s.writeBuf = true → bufBusy s (!s.writeBuf) = true →
    s.out.active = true ∧ s.out.readBuf = !s.writeBuf

theorem OutCase.inOrder (h : OutCase s i acc) (hs : InOrder s)
    (hwrite : acc.writeBuf = s.writeBuf) : InOrder acc := by
  intro hw hother
  rw [hwrite] at hw hother ⊢
  have hbefore (k : Bool) (hk : bufBusy acc k = true) : bufBusy s k = true := by
    by_contra hnot
    rw [Bool.not_eq_true] at hnot
    rw [h.not_busy hnot] at hk
    cases hk
  obtain ⟨hactive, hread⟩ := hs (hbefore _ hw) (hbefore _ hother)
  cases h with
  | start _ hidle | idle hidle =>
    rw [hactive] at hidle
    cases hidle
  | finish _ _ _ hbufs hidle _ =>
    rw [bufBusy, hbufs, hidle, hread, Function.update_self] at hother
    cases hother
  | advance _ _ _ _ hout | stall _ _ _ hout =>
    rw [hout]
    exact ⟨hactive, hread⟩

/-! ## The choice of the write buffer -/

/-- The payload that was complete last was so while another one was in the buffers. -/
def CompletedBeside (p : Params) (s₀ : Regs) (cycles : List Pins) : Prop :=
  ∃ pre i post, cycles = pre ++ i :: post ∧
    expected p s₀ pre ≠ expected p s₀ (pre ++ [i]) ∧
    expected p s₀ (pre ++ [i]) = expected p s₀ cycles ∧
    ∃ k, bufBusy (after p s₀ pre) k = true

theorem expected_snoc : expected p s₀ (cycles ++ [i]) =
    payloads (((frames p s₀ cycles).nexts (line (after p s₀ cycles) i)).datagrams p) := by
  rw [expected, frames_snoc]

theorem expected_append (p : Params) (s₀ : Regs) {more : List Pins}
    (hfed : ∀ i ∈ cycles ++ more, Fed i) :
    expected p s₀ cycles <+: expected p s₀ (cycles ++ more) := by
  induction more using List.reverseRecOn with
  | nil => simp
  | append_singleton more i ih =>
    rw [← List.append_assoc] at hfed ⊢
    have hfed' : ∀ j ∈ cycles ++ more, Fed j := fun j hj => hfed j (List.mem_append_left _ hj)
    refine (ih hfed').trans ?_
    have hinv := inv_after p s₀ hfed'
    obtain ⟨acc, hcase, -, -, heffect, -⟩ :=
      step_effect hinv.queue.valid hinv.current (hfed i (by simp))
    obtain ⟨new, -, hpayloads⟩ := heffect.queued hcase
    rw [expected_snoc, hpayloads]
    exact List.prefix_append _ _

/-- A cycle in which no payload is complete. -/
theorem completedBeside_snoc_of_eq
    (h : expected p s₀ (cycles ++ [i]) = expected p s₀ cycles) :
    CompletedBeside p s₀ (cycles ++ [i]) ↔ CompletedBeside p s₀ cycles := by
  constructor
  · rintro ⟨pre, j, post, hsplit, hgrows, hlast, hbusy⟩
    rcases List.eq_nil_or_concat post with rfl | ⟨post', j', rfl⟩
    · obtain ⟨rfl, hij⟩ := List.append_inj' hsplit rfl
      rw [← hij, h] at hgrows
      exact absurd rfl hgrows
    · rw [List.concat_eq_append, ← List.cons_append, ← List.append_assoc] at hsplit
      obtain ⟨rfl, -⟩ := List.append_inj' hsplit rfl
      exact ⟨pre, j, post', rfl, hgrows, hlast.trans h, hbusy⟩
  · rintro ⟨pre, j, post, rfl, hgrows, hlast, hbusy⟩
    exact ⟨pre, j, post ++ [i], by simp, hgrows, by rw [hlast, h], hbusy⟩

/-- A cycle that completes a payload. -/
theorem completedBeside_snoc_of_ne (hfed : ∀ j ∈ cycles ++ [i], Fed j)
    (h : expected p s₀ (cycles ++ [i]) ≠ expected p s₀ cycles) :
    CompletedBeside p s₀ (cycles ++ [i]) ↔ ∃ k, bufBusy (after p s₀ cycles) k = true := by
  constructor
  · rintro ⟨pre, j, post, hsplit, hgrows, hlast, hbusy⟩
    rcases List.eq_nil_or_concat post with rfl | ⟨post', j', rfl⟩
    · obtain ⟨rfl, -⟩ := List.append_inj' hsplit rfl
      exact hbusy
    · -- an earlier completion would not be the last
      rw [List.concat_eq_append, ← List.cons_append, ← List.append_assoc] at hsplit
      obtain ⟨rfl, -⟩ := List.append_inj' hsplit rfl
      have hcycles : pre ++ j :: post' = (pre ++ [j]) ++ post' := by simp
      have hle : expected p s₀ (pre ++ [j]) <+: expected p s₀ (pre ++ j :: post') := by
        rw [hcycles]
        exact expected_append p s₀ fun l hl => hfed l (by
          rw [← hcycles] at hl
          exact List.mem_append_left _ hl)
      have hge : expected p s₀ (pre ++ j :: post') <+: expected p s₀ (pre ++ j :: post' ++ [i]) :=
        expected_append p s₀ hfed
      rw [← hlast] at hge
      exact absurd (hlast.symm.trans (hle.eq_of_length_le hge.length_le)) h
  · intro hbusy
    exact ⟨cycles, i, [], rfl, h.symm, rfl, hbusy⟩

/-- **The write buffer is occupied only behind a payload that was complete beside another
one**, and then by the youngest payload. -/
structure WriteInv (p : Params) (s₀ : Regs) (cycles : List Pins) (s : Regs) : Prop where
  beside : CompletedBeside p s₀ cycles → writeBufBusy s = false →
    bufBusy s (!s.writeBuf) = false
  alone : ¬ CompletedBeside p s₀ cycles → writeBufBusy s = false
  order : InOrder s

/-- A cycle that completes no payload. -/
theorem WriteInv.keep {cycles' : List Pins} (h : WriteInv p s₀ cycles s)
    (hbeside : CompletedBeside p s₀ cycles' ↔ CompletedBeside p s₀ cycles)
    (hcase : OutCase s i acc) (hwrite : acc.writeBuf = s.writeBuf)
    (hbusy : ∀ k, bufBusy r k = bufBusy acc k) (hout : r.out = acc.out)
    (hwrite' : r.writeBuf = acc.writeBuf) : WriteInv p s₀ cycles' r := by
  have hw : writeBufBusy r = bufBusy acc s.writeBuf := by
    rw [writeBufBusy, hwrite', hwrite, hbusy]
  refine ⟨?_, ?_, ?_⟩
  · rw [hbeside, hw, hwrite', hwrite, hbusy]
    intro hlast hfree
    have hold := h.beside hlast
    rcases hcase.bufBusy_eq_or s.writeBuf with heq | ⟨hactive, hread, -⟩
    · exact hcase.not_busy (hold (heq.symm.trans hfree))
    · -- the youngest payload has been taken, so the older one has been taken before
      refine hcase.not_busy ?_
      by_contra hother
      rw [Bool.not_eq_false] at hother
      have hmine : bufBusy s s.writeBuf = true := by simp [bufBusy, hactive, hread]
      have hcontra := (h.order hmine hother).2
      rw [hread] at hcontra
      exact (Bool.eq_not_self _).mp hcontra
  · rw [hbeside, hw]
    exact fun hlast => hcase.not_busy (h.alone hlast)
  · have hacc := hcase.inOrder h.order hwrite
    unfold InOrder at hacc ⊢
    rw [hwrite', hbusy, hbusy, hout]
    exact hacc

/-- A cycle that completes a payload. -/
theorem WriteInv.complete {cycles' : List Pins} (hcase : OutCase s i acc)
    (hwrite : acc.writeBuf = s.writeBuf) (hfree : writeBufBusy s = false)
    (hbeside : CompletedBeside p s₀ cycles' ↔ ∃ k, bufBusy s k = true) {len : BitVec 16}
    {mem : Nat → UInt8} (hbufs : r.bufs = Function.update acc.bufs s.writeBuf ⟨len, true, mem⟩)
    (hout : r.out = acc.out)
    (hwrite' : r.writeBuf = if bufBusy s (!s.writeBuf) then acc.writeBuf else !s.writeBuf) :
    WriteInv p s₀ cycles' r := by
  have hmine : bufBusy r s.writeBuf = true := by
    simp [bufBusy, hbufs]
  have hother : bufBusy r (!s.writeBuf) = bufBusy acc (!s.writeBuf) := by
    rw [bufBusy, bufBusy, hbufs, hout, Function.update_of_ne (by simp)]
  cases hbusy : bufBusy s (!s.writeBuf) with
  | true =>
    rw [hbusy, if_pos rfl, hwrite] at hwrite'
    have hlast : CompletedBeside p s₀ cycles' := hbeside.mpr ⟨_, hbusy⟩
    refine ⟨fun _ hnot => ?_, fun hnot => absurd hlast hnot, fun _ hsecond => ?_⟩
    · rw [writeBufBusy, hwrite', hmine] at hnot
      cases hnot
    · -- the output stage has begun with the other buffer
      rw [hwrite', hother] at hsecond
      have hfree' : bufBusy acc s.writeBuf = false := hcase.not_busy hfree
      have hactive : acc.out.active = true := by
        by_contra hidle
        rw [Bool.not_eq_true] at hidle
        rw [bufBusy, hcase.idle_pending hfree hidle, hidle] at hsecond
        cases hsecond
      rw [hout, hwrite']
      exact ⟨hactive, readBuf_of_not_busy hfree' hactive⟩
  | false =>
    rw [hbusy, if_neg (by decide)] at hwrite'
    have hnone : ¬ CompletedBeside p s₀ cycles' := by
      rw [hbeside]
      rintro ⟨k, hk⟩
      rcases Bool.eq_or_eq_not k s.writeBuf with rfl | rfl
      · rw [writeBufBusy] at hfree
        rw [hfree] at hk
        cases hk
      · rw [hbusy] at hk
        cases hk
    have hfree' : bufBusy r r.writeBuf = false := by
      rw [hwrite', hother]
      exact hcase.not_busy hbusy
    refine ⟨fun hlast => absurd hlast hnone, fun _ => hfree', fun hw => ?_⟩
    rw [hfree'] at hw
    cases hw

theorem writeInv_after (p : Params) (s₀ : Regs) (hfed : ∀ i ∈ cycles, Fed i) :
    WriteInv p s₀ cycles (after p s₀ cycles) := by
  refine Clocked.history_induction (fun cycles => WriteInv p s₀ cycles (after p s₀ cycles))
    ⟨fun _ _ => rfl, fun _ => rfl, nofun⟩ ?_ hfed
  intro cycles i hcycles hi ih
  have hall : ∀ j ∈ cycles ++ [i], Fed j := by
    intro j hj
    rcases List.mem_append.mp hj with hj | hj
    · exact hcycles j hj
    · exact List.mem_singleton.mp hj ▸ hi
  have hinv := inv_after p s₀ hcycles
  obtain ⟨acc, hcase, hwrite, -, heffect, -⟩ := step_effect hinv.queue.valid hinv.current hi
  have hnext : expected p s₀ (cycles ++ [i]) = _ := expected_snoc
  rw [after_snoc]
  cases heffect with
  | same hsame hafter =>
    rw [hafter] at hnext
    exact ih.keep (completedBeside_snoc_of_eq hnext) hcase hwrite
      (bufBusy_congr hsame.bufs hsame.out) hsame.out hsame.writeBuf
  | storing hfree huntouched hafter =>
    rw [hafter] at hnext
    obtain ⟨mem, hbufs⟩ := huntouched.bufs
    refine ih.keep (completedBeside_snoc_of_eq hnext) hcase hwrite (fun k => ?_)
      huntouched.out huntouched.writeBuf
    rw [bufBusy, bufBusy, hbufs, huntouched.out]
    by_cases hk : k = (after p s₀ cycles).writeBuf
    · rw [hk, Function.update_self]
    · rw [Function.update_of_ne hk]
  | empty d hpayload hbufs hout hwrite' hremote hafter =>
    rw [hafter, payloads_append, payloads, payloads, List.flatMap_singleton, hpayload, axisPacket,
      List.append_nil] at hnext
    exact ih.keep (completedBeside_snoc_of_eq hnext) hcase hwrite
      (bufBusy_congr hbufs hout) hout hwrite'
  | packet d hfree hpos hbufs hout hwrite' hremote hafter =>
    obtain ⟨len, mem, hbufs, -⟩ := hbufs
    have hgrows : expected p s₀ (cycles ++ [i]) ≠ expected p s₀ cycles := by
      intro hsame
      rw [hafter, payloads_append, hsame] at hnext
      have hlen := congrArg List.length hnext
      rw [expected, List.length_append, payloads, payloads, List.flatMap_singleton,
        length_axisPacket] at hlen
      have := List.length_pos_of_ne_nil hpos
      omega
    exact .complete hcase hwrite hfree (completedBeside_snoc_of_ne hall hgrows) hbufs hout hwrite'

/-! ## Frames without a buffer -/

/-- A frame starts and is dropped for lack of a buffer. -/
def DropsFrame (p : Params) (s : Regs) (i : Pins) : Prop :=
  i.rxFrameStart = true ∧ (step p s i).parser.state = .drop ∧ (step p s i).diag.parserError = true

theorem dropsFrame_iff (hfed : Fed i) (hstart : i.rxFrameStart = true) :
    DropsFrame p s i ↔ writeBufBusy s = true := by
  obtain ⟨hbyte, hend⟩ := hfed.start_alone hstart
  simp only [DropsFrame, step, hfed.rstN, hstart, hbyte, hend, startStep, Bool.not_true,
    Bool.false_eq_true, if_false, if_true, true_and]
  cases writeBufBusy s <;> simp

/-- **When a frame can be lost although a buffer is free**: exactly one buffer is occupied, and
the payload in it was complete while the other buffer was still occupied. -/
theorem drops_only_if_full_iff (p : Params) (s₀ : Regs) (hfed : ∀ i ∈ cycles, Fed i) :
    (∀ i, Fed i → DropsFrame p (after p s₀ cycles) i →
        bufBusy (after p s₀ cycles) false = true ∧ bufBusy (after p s₀ cycles) true = true) ↔
      ¬ (CompletedBeside p s₀ cycles ∧
        bufBusy (after p s₀ cycles) false ≠ bufBusy (after p s₀ cycles) true) := by
  have hinv := writeInv_after p s₀ hfed
  generalize after p s₀ cycles = s at hinv
  have hother : bufBusy s false ≠ bufBusy s true ↔
      bufBusy s (!s.writeBuf) = !bufBusy s s.writeBuf := by
    have hne₁ : ∀ x y : Bool, x ≠ y ↔ y = !x := by decide
    have hne₂ : ∀ x y : Bool, x ≠ y ↔ x = !y := by decide
    cases s.writeBuf
    · exact hne₁ _ _
    · exact hne₂ _ _
  have hboth : bufBusy s false = true ∧ bufBusy s true = true ↔
      bufBusy s s.writeBuf = true ∧ bufBusy s (!s.writeBuf) = true := by
    cases s.writeBuf <;> simp [and_comm]
  rw [hother, hboth]
  constructor
  · rintro h ⟨hlast, hone⟩
    have hstart : Fed { rxFrameStart := true } := ⟨rfl, fun _ => ⟨rfl, rfl⟩⟩
    have hbusy : writeBufBusy s = true := by
      by_contra hfree
      rw [Bool.not_eq_true] at hfree
      have hnone := hinv.beside hlast hfree
      rw [writeBufBusy] at hfree
      rw [hone, hfree] at hnone
      cases hnone
    obtain ⟨hw, ho⟩ := h _ hstart ((dropsFrame_iff hstart rfl).mpr hbusy)
    rw [hone, hw] at ho
    cases ho
  · intro h i hi hdrop
    have hbusy := (dropsFrame_iff hi hdrop.1).mp hdrop
    have hlast : CompletedBeside p s₀ cycles := by
      by_contra hnot
      rw [hinv.alone hnot] at hbusy
      cases hbusy
    refine ⟨hbusy, ?_⟩
    by_contra ho
    rw [Bool.not_eq_true] at ho
    rw [writeBufBusy] at hbusy
    exact h ⟨hlast, by rw [ho, hbusy]; rfl⟩

theorem drops_only_if_full_iff_ping :
    ¬ (CompletedBeside {} default pingCycles ∧ bufBusy (after {} default pingCycles) false ≠
      bufBusy (after {} default pingCycles) true) := by
  refine (drops_only_if_full_iff {} default fed_pingCycles).mp fun i hi hdrop => ?_
  have hfree : writeBufBusy (after {} default pingCycles) = false := by decide +kernel
  rw [dropsFrame_iff hi hdrop.1, hfree] at hdrop
  cases hdrop

/-- Two frames while the consumer does not take anything; then it takes the first payload. -/
def twoPings : List Pins := pingCycles ++ pingCycles ++ [{ mPayloadTready := true }]

/-- **A frame is lost while one of the buffers is free.** -/
theorem drops_with_free_buffer : (∀ i ∈ twoPings, Fed i) ∧
    DropsFrame {} (after {} default twoPings) { rxFrameStart := true } ∧
    bufBusy (after {} default twoPings) false = false := by
  have hfed : ∀ i ∈ twoPings, Fed i := by
    intro i hi
    rcases List.mem_append.mp hi with hi | hi
    · exact fed_pingCycles i ((List.mem_append.mp hi).elim id id)
    · rw [List.mem_singleton.mp hi]
      exact ⟨rfl, nofun⟩
  refine ⟨hfed, ?_, by decide +kernel⟩
  refine (dropsFrame_iff ⟨rfl, fun _ => ⟨rfl, rfl⟩⟩ rfl).mpr ?_
  decide +kernel

/-! ## Frames with a receive error -/

/-- A frame that ends with a receive error, cycle by cycle. -/
structure ErrorFrame where
  start : Pins
  body : List Pins
  finish : Pins
  start_spec : Fed start ∧ start.rxFrameStart = true
  body_spec : ∀ i ∈ body, Fed i ∧ i.rxFrameStart = false ∧ i.rxFrameEnd = false
  finish_spec : Fed finish ∧ finish.rxFrameStart = false ∧ finish.rxFrameEnd = true ∧
    finish.rxFrameError = true

namespace ErrorFrame

def timeline (f : ErrorFrame) : List Pins := f.start :: f.body ++ [f.finish]

def bytes (f : ErrorFrame) : List UInt8 :=
  (f.body.filter Pins.rxByteValid).map Pins.rxByte

theorem fed (f : ErrorFrame) : ∀ i ∈ f.timeline, Fed i := by
  intro i hi
  rcases List.mem_append.mp hi with hi | hi
  · rcases List.mem_cons.mp hi with rfl | hi
    · exact f.start_spec.1
    · exact (f.body_spec i hi).1
  · rw [List.mem_singleton.mp hi]
    exact f.finish_spec.1

end ErrorFrame

/-- No new frame starts. -/
def Quiet (i : Pins) : Prop := Fed i ∧ i.rxFrameStart = false

/-- The frame `f` behind `cycles` contributes no byte to the output, however long the consumer
waits for one, and the remote endpoint is as before. -/
def Ignored (p : Params) (s₀ : Regs) (cycles : List Pins) (f : ErrorFrame) : Prop :=
  (∀ more, (∀ i ∈ more, Quiet i) →
    delivered p s₀ (cycles ++ f.timeline ++ more) <+: expected p s₀ cycles) ∧
  (after p s₀ (cycles ++ f.timeline)).remote = (after p s₀ cycles).remote

/-- The bytes of the frame on the input pins. -/
theorem trace_line_body {body : List Pins}
    (h : ∀ i ∈ body, Fed i ∧ i.rxFrameStart = false ∧ i.rxFrameEnd = false) (s : Regs) :
    Clocked.trace (step p) line s body =
      ((body.filter Pins.rxByteValid).map Pins.rxByte).map LineEvent.byte := by
  induction body generalizing s with
  | nil => rfl
  | cons i body ih =>
    obtain ⟨-, hstart, hend⟩ := h i List.mem_cons_self
    rw [Clocked.trace_cons, ih fun j hj => h j (List.mem_cons_of_mem _ hj)]
    cases hbyte : i.rxByteValid <;> simp [line, hstart, hend, hbyte]

theorem nexts_bytes (closed : List Frame) (f : Frame) (bs : List UInt8) :
    Feed.nexts ⟨closed, some f⟩ (bs.map LineEvent.byte) =
      ⟨closed, some { f with bytes := f.bytes ++ bs }⟩ := by
  induction bs generalizing f with
  | nil => simp [Feed.nexts]
  | cons b bs ih =>
    have hstep := ih { f with bytes := f.bytes ++ [b] }
    rw [List.append_assoc] at hstep
    exact hstep

/-- The frame is received as it is, whatever its last cycle says. -/
theorem frames_errorFrame (f : ErrorFrame) : frames p s₀ (cycles ++ f.timeline) =
    ⟨(frames p s₀ cycles).closed ++ (frames p s₀ cycles).current.toList ++
      [⟨!writeBufBusy (after p s₀ cycles), f.bytes⟩], none⟩ := by
  have hstart (s : Regs) : line s f.start = [.start (!writeBufBusy s)] := by
    simp [line, f.start_spec.2]
  have hfinish (s : Regs) : line s f.finish = [.finish] := by
    simp [line, f.finish_spec.2.1, f.finish_spec.2.2.1]
  rw [frames_append, ErrorFrame.timeline, List.cons_append, Clocked.trace_cons,
    Clocked.trace_append, trace_line_body f.body_spec, Clocked.trace_cons, Clocked.trace_nil,
    hstart, hfinish]
  unfold Feed.nexts
  rw [List.foldl_append, List.foldl_append]
  have hbytes := nexts_bytes ((frames p s₀ cycles).closed ++ (frames p s₀ cycles).current.toList)
    ⟨!writeBufBusy (after p s₀ cycles), []⟩ f.bytes
  exact congrArg (Feed.next · .finish) hbytes

theorem datagrams_errorFrame (p : Params) (s₀ : Regs) (cycles : List Pins) (f : ErrorFrame) :
    (frames p s₀ (cycles ++ f.timeline)).datagrams p = (frames p s₀ cycles).datagrams p ++
      (Frame.datagram? p ⟨!writeBufBusy (after p s₀ cycles), f.bytes⟩).toList := by
  rw [frames_errorFrame, Feed.datagrams, Feed.datagrams]
  cases hd : Frame.datagram? p ⟨!writeBufBusy (after p s₀ cycles), f.bytes⟩ <;> simp [hd]

/-- Between frames nothing is received. -/
theorem expected_quiet (hcurrent : (frames p s₀ cycles).current = none) {more : List Pins}
    (hmore : ∀ i ∈ more, Quiet i) : expected p s₀ (cycles ++ more) = expected p s₀ cycles := by
  have hnexts : ∀ (s : Regs) (closed : List Frame),
      Feed.nexts ⟨closed, none⟩ (Clocked.trace (step p) line s more) = ⟨closed, none⟩ := by
    induction more with
    | nil => exact fun _ _ => rfl
    | cons i more ih =>
      intro s closed
      have hi := hmore i List.mem_cons_self
      rw [Clocked.trace_cons, Feed.nexts, List.foldl_append]
      have hline : (line s i).foldl Feed.next ⟨closed, none⟩ = ⟨closed, none⟩ := by
        unfold line
        rw [hi.2]
        cases i.rxFrameEnd <;> cases i.rxByteValid <;> simp [Feed.next]
      rw [hline]
      exact ih (fun j hj => hmore j (List.mem_cons_of_mem _ hj)) _ _
  have hfeed : frames p s₀ cycles = ⟨(frames p s₀ cycles).closed, none⟩ := by rw [← hcurrent]
  rw [expected, expected, frames_append, hfeed, hnexts]

/-- A consumer that is ready for `n` cycles. -/
def drain (n : Nat) : List Pins := List.replicate n { mPayloadTready := true }

theorem quiet_drain (n : Nat) : ∀ i ∈ drain n, Quiet i := by
  intro i hi
  rw [List.eq_of_mem_replicate hi]
  exact ⟨⟨rfl, nofun⟩, rfl⟩

theorem ErrorFrame.fed_append (f : ErrorFrame) (hfed : ∀ i ∈ cycles, Fed i) :
    ∀ i ∈ cycles ++ f.timeline, Fed i :=
  fun i hi => (List.mem_append.mp hi).elim (hfed i) (f.fed i)

/-- The output shows the payload of the frame, if there is one. -/
theorem silent_iff (hfed : ∀ i ∈ cycles, Fed i) (f : ErrorFrame) :
    (∀ more, (∀ i ∈ more, Quiet i) →
        delivered p s₀ (cycles ++ f.timeline ++ more) <+: expected p s₀ cycles) ↔
      expected p s₀ (cycles ++ f.timeline) = expected p s₀ cycles := by
  have hfed' := f.fed_append hfed
  have hnone : (frames p s₀ (cycles ++ f.timeline)).current = none := by rw [frames_errorFrame]
  have hgrows : expected p s₀ cycles <+: expected p s₀ (cycles ++ f.timeline) :=
    expected_append p s₀ hfed'
  constructor
  · intro h
    let n := 2 * (expected p s₀ (cycles ++ f.timeline)).length + 1
    have hready : n ≤ (drain n).countP Pins.mPayloadTready := by
      rw [drain, List.countP_replicate]
      exact le_rfl
    have hall := expected_prefix_delivered hfed' (fun i hi => (quiet_drain n i hi).1) hready
    exact (hgrows.eq_of_length_le (hall.trans (h _ (quiet_drain n))).length_le).symm
  · intro h more hmore
    rw [← h, ← expected_quiet hnone hmore]
    refine delivered_of_expected fun i hi => ?_
    exact (List.mem_append.mp hi).elim (hfed' i) fun hi => (hmore i hi).1

/-- **Which frames with a receive error are ignored**: those that find no buffer, those that
do not hold a complete datagram for the board, and empty datagrams of the endpoint that sent
the last one. The error itself does not matter. -/
theorem error_frame_ignored_iff (p : Params) (s₀ : Regs) (hfed : ∀ i ∈ cycles, Fed i)
    (f : ErrorFrame) :
    Ignored p s₀ cycles f ↔
      writeBufBusy (after p s₀ cycles) = true ∨
        ∀ d, datagram? p f.bytes = some d →
          d.payload = [] ∧ d.source = (after p s₀ cycles).remote := by
  have hdatagrams := datagrams_errorFrame p s₀ cycles f
  have hremote := (inv_after p s₀ (f.fed_append hfed)).remote
  rw [hdatagrams] at hremote
  have hexpected : expected p s₀ (cycles ++ f.timeline) = expected p s₀ cycles ++
      payloads (Frame.datagram? p ⟨!writeBufBusy (after p s₀ cycles), f.bytes⟩).toList := by
    rw [expected, expected, hdatagrams, payloads_append]
  rw [Ignored, silent_iff hfed f, hremote, hexpected, List.append_right_eq_self]
  cases hbusy : writeBufBusy (after p s₀ cycles) with
  | true =>
    have hnone : Frame.datagram? p ⟨!true, f.bytes⟩ = none := rfl
    rw [hnone, (inv_after p s₀ hfed).remote]
    simp [payloads]
  | false =>
    have hsame : Frame.datagram? p ⟨!false, f.bytes⟩ = datagram? p f.bytes := rfl
    rw [hsame]
    cases hd : datagram? p f.bytes with
    | none =>
      rw [(inv_after p s₀ hfed).remote]
      simp [payloads]
    | some d =>
      rw [Option.toList_some, lastSource_snoc]
      have hempty : payloads [d] = [] ↔ d.payload = [] := by
        rw [payloads, List.flatMap_singleton, ← List.length_eq_zero_iff, length_axisPacket,
          List.length_eq_zero_iff]
      simp [hempty]

/-- The ping with a receive error at its end. -/
def badPing : ErrorFrame where
  start := { rxFrameStart := true }
  body := byteCycles ping
  finish := { rxFrameEnd := true, rxFrameError := true }
  start_spec := ⟨⟨rfl, fun _ => ⟨rfl, rfl⟩⟩, rfl⟩
  body_spec := by
    intro i hi
    obtain ⟨b, -, rfl⟩ := List.mem_map.mp hi
    exact ⟨⟨rfl, nofun⟩, rfl, rfl⟩
  finish_spec := ⟨⟨rfl, nofun⟩, rfl, rfl, rfl⟩

theorem error_frame_ignored_iff_badPing : ¬ Ignored {} default [] badPing := by
  rw [error_frame_ignored_iff {} default (by simp) badPing]
  rintro (hbusy | h)
  · exact absurd hbusy (by decide)
  · have hping : (datagram? {} badPing.bytes).map Datagram.payload = some [7] := by decide
    obtain ⟨d, hd, hpayload⟩ := Option.map_eq_some_iff.mp hping
    rw [(h d hd).1] at hpayload
    cases hpayload

/-- **A frame with a receive error is delivered and sets the remote endpoint.** -/
theorem badPing_delivered : expected {} default [] = [] ∧
    delivered {} default (badPing.timeline ++ drain 2) = [⟨7, true⟩] ∧
    (after {} default badPing.timeline).remote ≠ (after {} default []).remote := by
  refine ⟨rfl, by decide +kernel, by decide +kernel⟩

end FpgaHashJoin.UdpIpv4Rx
