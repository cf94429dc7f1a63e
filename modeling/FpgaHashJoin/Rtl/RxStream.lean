import FpgaHashJoin.Rtl.RxParser
import FpgaHashJoin.Rtl.RxQueue

/-!
# From frames to the payload stream

The receive filter as a whole. The frames that have come are read off the input pins
(`received`); the stream that the consumer takes is, as far as it goes, the concatenation of
the payloads of their datagrams, and all of it comes if the consumer goes on taking bytes.
-/

namespace FpgaHashJoin.UdpIpv4Rx

/-! ## The frames on the input pins -/

/-- A frame, as far as it has come: was the write buffer free at its start, and its bytes. -/
structure Frame where
  free : Bool
  bytes : List UInt8

inductive LineEvent where
  | start (free : Bool)
  | byte (b : UInt8)
  | finish

/-- What the input pins say in a cycle. -/
def line (s : Regs) (i : Pins) : List LineEvent :=
  if i.rxFrameStart then [.start (!writeBufBusy s)]
  else if i.rxFrameEnd then [.finish]
  else if i.rxByteValid then [.byte i.rxByte]
  else []

/-- The start pulse has a cycle of its own. -/
structure Fed (i : Pins) : Prop where
  rstN : i.rstN = true
  start_alone : i.rxFrameStart = true → i.rxByteValid = false ∧ i.rxFrameEnd = false

structure Feed where
  closed : List Frame
  current : Option Frame

def Feed.next (f : Feed) : LineEvent → Feed
  | .start free => ⟨f.closed ++ f.current.toList, some ⟨free, []⟩⟩
  | .byte b => ⟨f.closed, f.current.map fun g => { g with bytes := g.bytes ++ [b] }⟩
  | .finish => ⟨f.closed ++ f.current.toList, none⟩

def Feed.nexts (f : Feed) (events : List LineEvent) : Feed := events.foldl Feed.next f

/-- The frames that a run of events delivers. -/
def received (events : List LineEvent) : Feed := Feed.nexts ⟨[], none⟩ events

/-- The datagram of a frame that found a free buffer. -/
def Frame.datagram? (p : Params) (f : Frame) : Option Datagram :=
  if f.free then UdpIpv4Rx.datagram? p f.bytes else none

def Feed.datagrams (p : Params) (f : Feed) : List Datagram :=
  (f.closed ++ f.current.toList).filterMap (Frame.datagram? p)

/-- The payloads as a stream. -/
def payloads (ds : List Datagram) : List AxisByte := ds.flatMap fun d => axisPacket d.payload

/-- The sender of the last datagram. -/
def lastSource (ds : List Datagram) : Endpoint := (ds.getLast?.map Datagram.source).getD ⟨0, 0, 0⟩

variable {p : Params} {s acc r : Regs} {i : Pins} {feed : Feed}

theorem datagrams_start (free : Bool) :
    (feed.next (.start free)).datagrams p = feed.datagrams p := by
  have hnone : Frame.datagram? p ⟨free, []⟩ = none := by
    cases free
    · rfl
    · exact datagram?_eq_none_of_short (by decide)
  simp [Feed.datagrams, Feed.next, hnone]

theorem datagrams_finish : (feed.next .finish).datagrams p = feed.datagrams p := by
  simp [Feed.datagrams, Feed.next]

theorem datagrams_of_current {f : Frame} (h : feed.current = some f) :
    feed.datagrams p = feed.closed.filterMap (Frame.datagram? p) ++ (f.datagram? p).toList := by
  rw [Feed.datagrams, h, List.filterMap_append]
  cases hd : f.datagram? p <;> simp [hd]

theorem payloads_append (ds es : List Datagram) :
    payloads (ds ++ es) = payloads ds ++ payloads es := List.flatMap_append

theorem lastSource_snoc (ds : List Datagram) (d : Datagram) : lastSource (ds ++ [d]) = d.source := by
  simp [lastSource]

/-! ## One cycle -/

/-- The parser and the frame that is coming in. -/
inductive Current (p : Params) (s : Regs) : Option Frame → Prop
  | outside (hstate : s.parser.state = .idle) : Current p s none
  | parsing {bytes : List UInt8} (hparsed : Parsed p s.parser (s.bufs s.writeBuf).mem bytes)
      (hfree : s.parser.state ≠ .drop → writeBufBusy s = false) :
      Current p s (some ⟨true, bytes⟩)
  | refused {bytes : List UInt8} (hstate : s.parser.state = .drop) :
      Current p s (some ⟨false, bytes⟩)

/-- What a cycle does behind the output stage, `acc`: nothing, or a datagram is complete. -/
inductive Effect (p : Params) (s acc r : Regs) (before after : List Datagram) : Prop
  | same (hsame : SameStore r acc) (hafter : after = before)
  | storing (hfree : writeBufBusy s = false) (huntouched : Untouched s acc r)
      (hafter : after = before)
  | empty (d : Datagram) (hpayload : d.payload = []) (hbufs : r.bufs = acc.bufs)
      (hout : r.out = acc.out) (hwrite : r.writeBuf = acc.writeBuf) (hremote : r.remote = d.source)
      (hafter : after = before ++ [d])
  | packet (d : Datagram) (hfree : writeBufBusy s = false) (hpos : d.payload ≠ [])
      (hbufs : ∃ len mem, r.bufs = Function.update acc.bufs s.writeBuf ⟨len, true, mem⟩ ∧
        d.payload = (List.range len.toNat).map mem)
      (hout : r.out = acc.out)
      (hwrite : r.writeBuf = if bufBusy s (!s.writeBuf) then acc.writeBuf else !s.writeBuf)
      (hremote : r.remote = d.source) (hafter : after = before ++ [d])

theorem Untouched.not_busy (h : Untouched s acc r) (hwrite : acc.writeBuf = s.writeBuf)
    (hfree : bufBusy acc s.writeBuf = false) : writeBufBusy r = false := by
  obtain ⟨mem, hbufs⟩ := h.bufs
  rw [writeBufBusy, h.writeBuf, hwrite, bufBusy, hbufs, h.out, Function.update_self]
  exact hfree

/-- The end of the frame. -/
theorem endStep_same : SameStore (endStep s acc i) acc ∧ (endStep s acc i).parser.state = .idle := by
  unfold endStep
  dsimp only
  split_ifs <;> exact ⟨⟨rfl, rfl, rfl, rfl⟩, rfl⟩

theorem startStep_same : SameStore (startStep s acc) acc := by
  unfold startStep
  split_ifs <;> exact ⟨rfl, rfl, rfl, rfl⟩

theorem startStep_current (hwrite : acc.writeBuf = s.writeBuf)
    (hfree : bufBusy s s.writeBuf = false → bufBusy acc s.writeBuf = false) :
    Current p (startStep s acc) (some ⟨!writeBufBusy s, []⟩) := by
  unfold startStep
  cases hbusy : writeBufBusy s with
  | true => exact .refused rfl
  | false =>
    refine .parsing (.eth rfl ⟨EthScan.start, IpScan.start, UdpScan.start⟩ rfl ?_) fun _ => ?_
    · change (0 : BitVec 6).toNat < 14
      decide
    · have := hfree hbusy
      rw [← hwrite] at this
      exact this

/-- A cycle without start and end of a frame and without a byte. -/
theorem Current.keep {f : Option Frame} (h : Current p s f) (hcase : OutCase s i r)
    (hparser : r.parser = s.parser) (hwrite : r.writeBuf = s.writeBuf) : Current p r f := by
  cases h with
  | outside hstate => exact .outside (by rw [hparser, hstate])
  | parsing hparsed hfree =>
    refine .parsing (by rw [hparser, hwrite, hcase.mem_eq]; exact hparsed) fun hstate => ?_
    rw [hparser] at hstate
    rw [writeBufBusy, hwrite]
    exact hcase.not_busy (hfree hstate)
  | refused hstate => exact .refused (by rw [hparser, hstate])

/-- One byte. -/
theorem byteStep_effect (hcur : Current p s feed.current) (hcase : OutCase s i acc)
    (hparser : acc.parser = s.parser) (hwrite : acc.writeBuf = s.writeBuf) (b : UInt8) :
    Effect p s acc (byteStep p s acc b) (feed.datagrams p) ((feed.next (.byte b)).datagrams p) ∧
      Current p (byteStep p s acc b) (feed.next (.byte b)).current := by
  obtain ⟨closed, current⟩ := feed
  cases hcur with
  | outside hstate =>
    rw [byteStep, hstate]
    exact ⟨.same ⟨rfl, rfl, rfl, rfl⟩ rfl, .outside rfl⟩
  | @refused bytes hstate =>
    rw [byteStep, hstate]
    have hnone : ∀ bs, Frame.datagram? p ⟨false, bs⟩ = none := fun _ => rfl
    refine ⟨.same ⟨rfl, rfl, rfl, rfl⟩ ?_, .refused (by rw [hparser, hstate])⟩
    rw [datagrams_of_current (f := ⟨false, bytes ++ [b]⟩) rfl,
      datagrams_of_current (f := ⟨false, bytes⟩) rfl, hnone, hnone]
    rfl
  | @parsing bytes hparsed hfree =>
    have hdatagrams (bs : List UInt8) : Feed.datagrams p ⟨closed, some ⟨true, bs⟩⟩ =
        closed.filterMap (Frame.datagram? p) ++ (datagram? p bs).toList :=
      datagrams_of_current (f := ⟨true, bs⟩) rfl
    have hnext : Feed.next ⟨closed, some ⟨true, bytes⟩⟩ (.byte b) =
        ⟨closed, some ⟨true, bytes ++ [b]⟩⟩ := rfl
    rw [hnext, hdatagrams, hdatagrams]
    by_cases hdrop : s.parser.state = .drop
    · have hsettled : Settled p bytes := by
        cases hparsed with
        | drop _ hsettled => exact hsettled
        | eth hstate | ip hstate | udp hstate | payload hstate =>
          rw [hdrop] at hstate
          cases hstate
      rw [byteStep, hdrop]
      refine ⟨.same ⟨rfl, rfl, rfl, rfl⟩ ?_, ?_⟩
      · rw [hsettled]
      · have hacc : acc.parser.state = .drop := by rw [hparser, hdrop]
        exact .parsing (.drop hacc hsettled.append) fun h => absurd hacc h
    · have hbusy := hfree hdrop
      have houtcome := byteStep_outcome (b := b) hparser (hcase.mem_eq _) hparsed
      cases houtcome with
      | parsing hsame hnext hdatagram =>
        refine ⟨.storing hbusy hsame (by rw [hdatagram]), .parsing ?_ fun _ => ?_⟩
        · rw [hsame.writeBuf, hwrite]
          exact hnext
        · exact hsame.not_busy hwrite (hcase.not_busy hbusy)
      | empty d hstate hsettled hbefore hafter hpayload hbufs hout hwrite' hremote =>
        refine ⟨.empty d hpayload hbufs hout hwrite' hremote ?_,
          .parsing (.drop hstate hsettled) fun h => absurd hstate h⟩
        simp [hbefore, hafter]
      | packet d hstate hsettled hbefore hafter hpos hbufs hout hwrite' hremote =>
        refine ⟨.packet d hbusy hpos hbufs hout hwrite' hremote ?_,
          .parsing (.drop hstate hsettled) fun h => absurd hstate h⟩
        simp [hbefore, hafter]

/-- **One cycle**: first the output stage, then the parser. -/
theorem step_effect (hvalid : s.out.tvalid = s.out.active) (hcur : Current p s feed.current)
    (hfed : Fed i) :
    ∃ acc, OutCase s i acc ∧ acc.writeBuf = s.writeBuf ∧ acc.remote = s.remote ∧
      Effect p s acc (step p s i) (feed.datagrams p) ((feed.nexts (line s i)).datagrams p) ∧
      Current p (step p s i) (feed.nexts (line s i)).current := by
  obtain ⟨acc₀, hbufs, hout, hparser₀, hwrite₀, hremote₀, hstep⟩ : ∃ acc₀ : Regs,
      acc₀.bufs = s.bufs ∧ acc₀.out = s.out ∧ acc₀.parser = s.parser ∧
      acc₀.writeBuf = s.writeBuf ∧ acc₀.remote = s.remote ∧ step p s i =
        let acc := outputStep s acc₀ i
        let acc := if i.rxFrameStart then startStep s acc else acc
        if i.rxFrameEnd then endStep s acc i
        else if i.rxByteValid then byteStep p s acc i.rxByte else acc := by
    refine ⟨{ s with
      diag.packetSeen := false
      diag.packetDropped := false
      diag.parserError := false }, rfl, rfl, rfl, rfl, rfl, ?_⟩
    simp only [step, hfed.rstN, Bool.not_true, Bool.false_eq_true, if_false]
  have hcase := outputStep_cases (i := i) hvalid hbufs hout
  obtain ⟨hparser, hwrite, hremote⟩ := @outputStep_other s acc₀ i
  rw [hparser₀] at hparser
  rw [hwrite₀] at hwrite
  rw [hremote₀] at hremote
  generalize outputStep s acc₀ i = acc at hstep hcase hparser hwrite hremote
  refine ⟨acc, hcase, hwrite, hremote, ?_⟩
  rw [hstep]
  dsimp only
  unfold line
  cases hs : i.rxFrameStart with
  | true =>
    obtain ⟨hbyte, hend⟩ := hfed.start_alone hs
    simp only [hbyte, hend, Bool.false_eq_true, if_false, if_true]
    exact ⟨.same startStep_same (datagrams_start _),
      startStep_current hwrite fun h => hcase.not_busy h⟩
  | false =>
    cases he : i.rxFrameEnd with
    | true =>
      simp only [Bool.false_eq_true, if_false, if_true]
      exact ⟨.same endStep_same.1 datagrams_finish, .outside endStep_same.2⟩
    | false =>
      cases hb : i.rxByteValid with
      | true =>
        simp only [Bool.false_eq_true, if_false, if_true]
        exact byteStep_effect hcur hcase hparser hwrite _
      | false =>
        simp only [Bool.false_eq_true, if_false]
        exact ⟨.same ⟨rfl, rfl, rfl, rfl⟩ rfl, hcur.keep hcase hparser hwrite⟩

/-! ## Whole runs -/

/-- **The invariant**, for the frames so far and what the consumer has taken of them. -/
structure Inv (p : Params) (s : Regs) (feed : Feed) (taken : List AxisByte) : Prop where
  queue : Queue s
  stream : taken ++ queued s = payloads (feed.datagrams p)
  remote : s.remote = lastSource (feed.datagrams p)
  current : Current p s feed.current

theorem inv_reset (s : Regs) : Inv p (reset s) ⟨[], none⟩ [] where
  queue := ⟨rfl, nofun, nofun, nofun, nofun, nofun, nofun⟩
  stream := rfl
  remote := rfl
  current := .outside rfl

theorem Effect.queue {before after : List Datagram} (h : Effect p s acc r before after)
    (hacc : Queue acc) (hbusy : writeBufBusy s = false → bufBusy acc s.writeBuf = false) :
    Queue r := by
  cases h with
  | same hsame => exact hacc.congr hsame.bufs hsame.out
  | storing hfree huntouched =>
    obtain ⟨mem, hbufs⟩ := huntouched.bufs
    exact hacc.update (hbusy hfree) hbufs huntouched.out (hacc.nonempty _)
  | empty d hpayload hbufs hout => exact hacc.congr hbufs hout
  | packet d hfree hpos hbufs hout =>
    obtain ⟨len, mem, hbufs, hpayload⟩ := hbufs
    refine hacc.update (hbusy hfree) hbufs hout fun _ => Nat.pos_of_ne_zero fun hzero => hpos ?_
    rw [hpayload, hzero]
    rfl

theorem Effect.queued {before after : List Datagram} (h : Effect p s acc r before after)
    (hcase : OutCase s i acc) : ∃ new, UdpIpv4Rx.queued r = UdpIpv4Rx.queued acc ++ new ∧
      payloads after = payloads before ++ new := by
  cases h with
  | same hsame hafter =>
    exact ⟨[], by rw [queued_congr hsame.bufs hsame.out, List.append_nil], by simp [hafter]⟩
  | storing hfree huntouched hafter =>
    obtain ⟨mem, hbufs⟩ := huntouched.bufs
    refine ⟨[], ?_, by simp [hafter]⟩
    rw [queued_update_mem (hcase.not_busy hfree) hbufs huntouched.out, List.append_nil]
  | empty d hpayload hbufs hout _ _ hafter =>
    refine ⟨[], by rw [queued_congr hbufs hout, List.append_nil], ?_⟩
    rw [hafter, payloads_append]
    simp [payloads, hpayload, axisPacket]
  | packet d hfree hpos hbufs hout _ _ hafter =>
    obtain ⟨len, mem, hbufs, hpayload⟩ := hbufs
    refine ⟨axisPacket d.payload, ?_, by simp [hafter, payloads]⟩
    rw [queued_enqueue (hcase.not_busy hfree) (hcase.idle_pending hfree) hbufs hout, hpayload]

theorem Effect.remote {before after : List Datagram} (h : Effect p s acc r before after)
    (hacc : acc.remote = lastSource before) : r.remote = lastSource after := by
  cases h with
  | same hsame hafter => rw [hsame.remote, hafter, hacc]
  | storing _ huntouched hafter => rw [huntouched.remote, hafter, hacc]
  | empty d _ _ _ _ hremote hafter => rw [hremote, hafter, lastSource_snoc]
  | packet d _ _ _ _ _ hremote hafter => rw [hremote, hafter, lastSource_snoc]

/-- The step lemma. -/
theorem Inv.step {taken : List AxisByte} (h : Inv p s feed taken) (hfed : Fed i) :
    Inv p (step p s i) (feed.nexts (line s i)) (taken ++ accepted s i) := by
  obtain ⟨acc, hcase, -, hremote, heffect, hcurrent⟩ :=
    step_effect h.queue.valid h.current hfed
  obtain ⟨new, hqueued, hpayloads⟩ := heffect.queued hcase
  have hacc := hcase.accepted_append_queued h.queue
  refine ⟨heffect.queue (hcase.queue h.queue) hcase.not_busy, ?_,
    heffect.remote (hremote.trans h.remote), hcurrent⟩
  calc taken ++ accepted s i ++ queued (UdpIpv4Rx.step p s i)
      = taken ++ (accepted s i ++ queued acc) ++ new := by
        rw [hqueued]
        simp only [List.append_assoc]
    _ = payloads ((feed.nexts (line s i)).datagrams p) := by
        rw [hacc, h.stream, hpayloads]

/-- The state after `cycles`, from a reset on. -/
def after (p : Params) (s₀ : Regs) (cycles : List Pins) : Regs :=
  Clocked.run (step p) (reset s₀) cycles

/-- What the consumer has taken. -/
def delivered (p : Params) (s₀ : Regs) (cycles : List Pins) : List AxisByte :=
  Clocked.trace (step p) accepted (reset s₀) cycles

/-- The frames that have come. -/
def frames (p : Params) (s₀ : Regs) (cycles : List Pins) : Feed :=
  received (Clocked.trace (step p) line (reset s₀) cycles)

/-- The stream that the frames stand for. -/
def expected (p : Params) (s₀ : Regs) (cycles : List Pins) : List AxisByte :=
  payloads ((frames p s₀ cycles).datagrams p)

variable {s₀ : Regs} {cycles : List Pins}

theorem after_snoc : after p s₀ (cycles ++ [i]) = step p (after p s₀ cycles) i :=
  Clocked.run_snoc _ _ _ _

theorem delivered_snoc : delivered p s₀ (cycles ++ [i]) =
    delivered p s₀ cycles ++ accepted (after p s₀ cycles) i :=
  Clocked.trace_snoc _ _ _ _ _

theorem frames_append (more : List Pins) : frames p s₀ (cycles ++ more) =
    (frames p s₀ cycles).nexts (Clocked.trace (step p) line (after p s₀ cycles) more) := by
  unfold frames received Feed.nexts
  rw [Clocked.trace_append, List.foldl_append]
  rfl

theorem frames_snoc : frames p s₀ (cycles ++ [i]) =
    (frames p s₀ cycles).nexts (line (after p s₀ cycles) i) := by
  rw [frames_append, Clocked.trace_cons, Clocked.trace_nil, List.append_nil]

/-- The run lemma. -/
theorem inv_after (p : Params) (s₀ : Regs) (hfed : ∀ i ∈ cycles, Fed i) :
    Inv p (after p s₀ cycles) (frames p s₀ cycles) (delivered p s₀ cycles) := by
  refine Clocked.history_induction (fun cycles =>
    Inv p (after p s₀ cycles) (frames p s₀ cycles) (delivered p s₀ cycles)) (inv_reset s₀) ?_ hfed
  intro cycles i _ hi ih
  rw [after_snoc, frames_snoc, delivered_snoc]
  exact ih.step hi

/-! ## Progress -/

/-- Without a byte on the stream nothing waits, or the output stage begins with a packet. -/
theorem OutCase.active_or_empty (h : OutCase s i acc) (hidle : s.out.active = false) :
    acc.out.active = true ∨ queued s = [] := by
  cases h with
  | start k _ _ _ _ hout =>
    left
    rw [hout]
  | idle _ hnone =>
    right
    simp [queued, hidle, Buffer.waiting, hnone]
  | finish hactive | advance hactive | stall hactive =>
    rw [hidle] at hactive
    cases hactive

theorem OutCase.active_of_stall (h : OutCase s i acc) (hactive : s.out.active = true)
    (hready : i.mPayloadTready = false) : acc.out.active = true := by
  cases h with
  | start _ hidle | idle hidle =>
    rw [hactive] at hidle
    cases hidle
  | finish _ hready' | advance _ hready' =>
    rw [hready] at hready'
    cases hready'
  | stall _ _ _ hout => rw [hout, hactive]

theorem Effect.out_eq {before after : List Datagram} (h : Effect p s acc r before after) :
    r.out = acc.out := by
  cases h with
  | same hsame => exact hsame.out
  | storing _ huntouched => exact huntouched.out
  | empty _ _ _ hout => exact hout
  | packet _ _ _ _ hout => exact hout

/-- The number of cycles with a ready consumer that `target` still needs. -/
def need (target taken : List AxisByte) (s : Regs) : Nat :=
  2 * (target.length - taken.length) + if s.out.active then 0 else 1

theorem need_step {target taken : List AxisByte} (h : Inv p s feed taken) (hfed : Fed i)
    (htarget : target <+: taken ++ queued s) (hopen : taken.length < target.length) :
    need target (taken ++ accepted s i) (step p s i) + (if i.mPayloadTready then 1 else 0) ≤
      need target taken s := by
  obtain ⟨acc, hcase, -, -, heffect, -⟩ := step_effect h.queue.valid h.current hfed
  have hout := heffect.out_eq
  unfold need
  rw [hout]
  cases hactive : s.out.active with
  | false =>
    have hsome : queued s ≠ [] := by
      intro hnil
      rw [hnil, List.append_nil] at htarget
      have := htarget.length_le
      omega
    have hbegun := (hcase.active_or_empty hactive).resolve_right hsome
    have hnone : accepted s i = [] := by simp [accepted, h.queue.valid, hactive]
    simp only [hbegun, hnone, List.append_nil, Bool.false_eq_true, if_false, if_true]
    split_ifs <;> omega
  | true =>
    cases hready : i.mPayloadTready with
    | false =>
      have hstill := hcase.active_of_stall hactive hready
      have hnone : accepted s i = [] := by simp [accepted, hready]
      simp [hstill, hnone]
    | true =>
      have hone : (accepted s i).length = 1 := by
        simp [accepted, h.queue.valid, hactive, hready]
      rw [List.length_append, hone]
      simp only [if_true]
      split_ifs <;> omega

/-- **A consumer that goes on taking bytes gets all of them.** -/
theorem delivers {target taken : List AxisByte} (h : Inv p s feed taken)
    (htarget : target <+: taken ++ queued s) {more : List Pins} (hfed : ∀ i ∈ more, Fed i)
    (hready : need target taken s ≤ more.countP Pins.mPayloadTready) :
    target <+: taken ++ Clocked.trace (step p) accepted s more := by
  induction more generalizing s feed taken with
  | nil =>
    have hdone : target.length ≤ taken.length := by
      simp [need] at hready
      omega
    rw [Clocked.trace_nil, List.append_nil]
    exact List.prefix_of_prefix_length_le htarget (List.prefix_append _ _) hdone
  | cons i more ih =>
    rw [Clocked.trace_cons, ← List.append_assoc]
    rcases Nat.lt_or_ge taken.length target.length with hopen | hdone
    · have hi := hfed i List.mem_cons_self
      have hstep := need_step h hi htarget hopen
      have hnext := h.step hi
      obtain ⟨acc, hcase, -, -, heffect, -⟩ := step_effect h.queue.valid h.current hi
      obtain ⟨new, hqueued, -⟩ := heffect.queued hcase
      refine ih hnext ?_ (fun j hj => hfed j (List.mem_cons_of_mem _ hj)) ?_
      · rw [hqueued, ← List.append_assoc, List.append_assoc taken,
          hcase.accepted_append_queued h.queue]
        exact htarget.trans (List.prefix_append _ _)
      · rw [List.countP_cons] at hready
        split_ifs at hready hstep <;> omega
    · have hall : target <+: taken :=
        List.prefix_of_prefix_length_le htarget (List.prefix_append _ _) hdone
      rw [List.append_assoc]
      exact hall.trans (List.prefix_append _ _)

theorem delivered_of_expected (hfed : ∀ i ∈ cycles, Fed i) :
    delivered p s₀ cycles <+: expected p s₀ cycles := by
  have hstream : _ = expected p s₀ cycles := (inv_after p s₀ hfed).stream
  rw [← hstream]
  exact List.prefix_append _ _

theorem expected_prefix_delivered (hfed : ∀ i ∈ cycles, Fed i) {more : List Pins}
    (hmore : ∀ i ∈ more, Fed i)
    (hready : 2 * (expected p s₀ cycles).length < more.countP Pins.mPayloadTready) :
    expected p s₀ cycles <+: delivered p s₀ (cycles ++ more) := by
  have hinv := inv_after p s₀ hfed
  have hstream : _ = expected p s₀ cycles := hinv.stream
  have hdelivered : delivered p s₀ (cycles ++ more) = delivered p s₀ cycles ++
      Clocked.trace (step p) accepted (after p s₀ cycles) more := Clocked.trace_append _ _ _ _ _
  rw [hdelivered]
  refine delivers hinv (by rw [hstream]) hmore (le_trans ?_ hready)
  unfold need
  split_ifs <;> omega

/-- **The payload stream.** What the consumer has taken is at any time the beginning of the
payloads of the frames that have come, in their order, and it is all of them once the
consumer has been ready often enough. -/
theorem payload_stream (p : Params) (s₀ : Regs) (hfed : ∀ i ∈ cycles, Fed i) :
    delivered p s₀ cycles <+: expected p s₀ cycles ∧
      ∀ more, (∀ i ∈ more, Fed i) →
        2 * (expected p s₀ cycles).length < more.countP Pins.mPayloadTready →
        expected p s₀ cycles <+: delivered p s₀ (cycles ++ more) :=
  ⟨delivered_of_expected hfed, fun _ hmore hready => expected_prefix_delivered hfed hmore hready⟩

/-- A broadcast frame with a datagram of one byte for the default port. -/
def ping : List UInt8 :=
  List.replicate 6 0xff ++ [2, 0, 0, 0, 0, 9] ++ [0x08, 0x00] ++
  [0x45, 0, 0, 29, 0, 0, 0, 0, 64, 17, 0, 0, 10, 0, 0, 1, 255, 255, 255, 255] ++
  [0xc3, 0x50, 0xc3, 0x50, 0, 9, 0, 0] ++ [7]

/-- The bytes of a frame, one in each cycle. -/
def byteCycles (bs : List UInt8) : List Pins :=
  bs.map fun b => { rxByte := b, rxByteValid := true }

/-- The frame while the consumer does not take anything. -/
def pingCycles : List Pins :=
  { rxFrameStart := true } :: byteCycles ping ++ [{ rxFrameEnd := true }]

theorem fed_pingCycles : ∀ i ∈ pingCycles, Fed i := by
  have hall : ∀ i ∈ pingCycles, i.rstN = true ∧
      (i.rxFrameStart = true → i.rxByteValid = false ∧ i.rxFrameEnd = false) := by decide
  exact fun i hi => ⟨(hall i hi).1, (hall i hi).2⟩

theorem payload_stream_ping : expected {} default pingCycles = [⟨7, true⟩] ∧
    [⟨7, true⟩] <+:
      delivered {} default (pingCycles ++ List.replicate 3 { mPayloadTready := true }) := by
  have hexpected : expected {} default pingCycles = [⟨7, true⟩] := by decide +kernel
  have hfed : ∀ i ∈ List.replicate 3 { mPayloadTready := true }, Fed i := by
    intro i hi
    rw [List.eq_of_mem_replicate hi]
    exact ⟨rfl, nofun⟩
  have hall := (payload_stream {} default fed_pingCycles).2 _ hfed
    (by rw [hexpected]; decide)
  rw [hexpected] at hall
  exact ⟨hexpected, hall⟩

end FpgaHashJoin.UdpIpv4Rx
