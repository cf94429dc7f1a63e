import FpgaHashJoin.Rtl.RmiiTxBytes

/-!
# The RMII loopback

The transmit pins of `rmii_tx_bytes` are wired to the receive pins of `rmii_rx_bytes`. The
time of the transmitter falls into segments: a clock of rest, the preamble, a byte, and the
last byte of a frame with the gap behind it. `segment` says for each of them what the receiver
reports, which byte is taken, and with which kind of segment it goes on.

* `stages_sound`: so the receiver reports the frames that were taken and nothing else, with the
  delay of `owed_nil_isPrefix`;
* `taken_grows`: a transmitter that is offered bytes takes one after a bounded time;
* `rmii_round_trip`: the same for the two circuits after reset.
-/

namespace FpgaHashJoin.RmiiLoopback

open Clocked RmiiRxBytes RmiiTxBytes

/-! ## What is expected -/

/-- What is reported about a byte. -/
def byteEvents (x : Item) : List Event :=
  .byte x.1 :: if x.2 then [.stop false] else []

/-- What is reported about the bytes that have been taken; the flag says whether a frame is
already under way. -/
def expected : Bool → List Item → List Event
  | _, [] => []
  | inFrame, x :: xs => (if inFrame then [] else [.start]) ++ byteEvents x ++ expected (!x.2) xs

/-- The bytes of a frame; the last one carries the flag. -/
def frameItems : List Byte → List Item
  | [] => []
  | [b] => [(b, true)]
  | b :: c :: bs => (b, false) :: frameItems (c :: bs)

/-- What is reported about a frame. -/
def frameEvents (f : List Byte) : List Event := .start :: f.map .byte ++ [.stop false]

theorem expected_frameItems {f : List Byte} (hf : f ≠ []) (inFrame : Bool) (xs : List Item) :
    expected inFrame (frameItems f ++ xs) =
      (if inFrame then [] else [.start]) ++ (f.map .byte ++ [.stop false]) ++ expected false xs := by
  induction f generalizing inFrame with
  | nil => exact absurd rfl hf
  | cons b f ih =>
    cases f with
    | nil => simp [frameItems, expected, byteEvents]
    | cons c f =>
      have hrest : expected (!(b, false).2) (frameItems (c :: f) ++ xs) = _ := ih (by simp) true
      rw [frameItems, List.cons_append, expected, hrest]
      simp [byteEvents]

/-- Whole frames are expected as whole frames. -/
theorem expected_frames {fs : List (List Byte)} (hfs : ∀ f ∈ fs, f ≠ []) :
    expected false (fs.flatMap frameItems) = fs.flatMap frameEvents := by
  induction fs with
  | nil => rfl
  | cons f fs ih =>
    rw [List.flatMap_cons, expected_frameItems (hfs f List.mem_cons_self),
      ih fun g hg => hfs g (List.mem_cons_of_mem _ hg), List.flatMap_cons]
    simp [frameEvents]

/-! ## The line -/

/-- The pins of the receiver. -/
def toRx (x : Bool × Dibit) : RmiiRxBytes.Pins := ⟨true, x.1, false, x.2⟩

/-- The transmitter on the line to the receiver. -/
abbrev serial (p : Params) : SerialLink RmiiTxBytes.Regs RmiiRxBytes.Regs RmiiTxBytes.Pins
    (Bool × Dibit) Item Event where
  step := RmiiTxBytes.step p
  shows := shows p
  hear r x := RmiiRxBytes.step p.tenMbit r (toRx x)
  reports r x := kinds p.tenMbit r (toRx x)

section Line

variable {p : Params} {r : RmiiRxBytes.Regs}

/-- What is heard about a piece of the line. -/
theorem heard_triple {P Q : RmiiRxBytes.Regs → Prop} {xs : List (Bool × Dibit)} {es : List Event}
    (h : RxTriple p.tenMbit P (xs.map toRx) es Q) (hr : P r) :
    Q (run (serial p).hear r xs) ∧ (serial p).heard r xs = es :=
  Triple.of_map h r hr

theorem holds_toRx (tenMbit : Bool) (d : Dibit) :
    Holds tenMbit true d ((List.replicate (period tenMbit) (true, d)).map toRx) := by
  refine ⟨by rw [List.length_map, List.length_replicate], fun i hi => ?_⟩
  rw [List.map_replicate] at hi
  rw [List.eq_of_mem_replicate hi]
  exact ⟨rfl, rfl, rfl⟩

theorem carries_wave (tenMbit : Bool) (ds : List Dibit) :
    Carries tenMbit (ds.map (true, ·)) ((wave tenMbit ds).map toRx) := by
  induction ds with
  | nil => rfl
  | cons d ds ih =>
    rw [wave_cons, List.map_append]
    exact ⟨_, _, rfl, holds_toRx tenMbit d, ih⟩

end Line

/-- The transmitter is fed: it is not reset, and while a frame is under way the next byte is
there whenever it can be taken. -/
def Fed (p : Params) (t : RmiiTxBytes.Regs) (is : List RmiiTxBytes.Pins) : Prop :=
  ∀ pre i, pre ++ [i] <+: is → i.rstN = true ∧
    ((run (RmiiTxBytes.step p) t pre).state = .data →
      sFrameTready p (run (RmiiTxBytes.step p) t pre) i = true → i.sFrameTvalid = true)

section Fed

variable {p : Params} {t : RmiiTxBytes.Regs} {is js : List RmiiTxBytes.Pins}

theorem Fed.left (h : Fed p t (is ++ js)) : Fed p t is :=
  fun pre i hpre => h pre i (hpre.trans (List.prefix_append _ _))

theorem Fed.right (h : Fed p t (is ++ js)) : Fed p (run (RmiiTxBytes.step p) t is) js := by
  intro pre i hpre
  have hall := h (is ++ pre) i (by
    rw [List.append_assoc]
    exact (List.prefix_append_right_inj is).mpr hpre)
  rwa [run_append] at hall

theorem Fed.of_take (h : ∀ n < is.length, ∀ i ∈ is[n]?, i.rstN = true ∧
    ((run (RmiiTxBytes.step p) t (is.take n)).state = .data →
      sFrameTready p (run (RmiiTxBytes.step p) t (is.take n)) i = true → i.sFrameTvalid = true)) :
    Fed p t is := by
  rintro pre i ⟨post, rfl⟩
  simpa using h pre.length (by simp) i (by simp)

theorem Fed.on (h : Fed p t is) : ∀ i ∈ is, i.rstN = true := by
  intro i hi
  obtain ⟨pre, post, rfl⟩ := List.append_of_mem hi
  exact (h pre i ⟨post, by simp⟩).1

/-- Bytes that are there all the time. -/
theorem Fed.append (h : Fed p t is) (hjs : ∀ j ∈ js, j.rstN = true ∧ j.sFrameTvalid = true) :
    Fed p t (is ++ js) := by
  intro pre i hpre
  by_cases hlen : (pre ++ [i]).length ≤ is.length
  · exact h pre i (List.prefix_of_prefix_length_le hpre (List.prefix_append _ _) hlen)
  · rw [List.length_append, List.length_singleton, not_le] at hlen
    obtain ⟨mid, rfl⟩ : is <+: pre := List.prefix_of_prefix_length_le (List.prefix_append _ _)
      ((List.prefix_append _ _).trans hpre) (by omega)
    rw [List.append_assoc, List.prefix_append_right_inj] at hpre
    obtain ⟨hon, hvalid⟩ := hjs i (hpre.subset (by simp))
    exact ⟨hon, fun _ _ => hvalid⟩

end Fed

/-! ## Segments -/

/-- The kinds of segments. -/
inductive Stage where
  | rest
  | taken (x : Item)
  | byte (x : Item)

namespace Stage

/-- The clocks of a segment. -/
def len (p : Params) : Stage → Nat
  | rest => 1
  | taken _ => 32 * period p.tenMbit
  | byte x => 4 * period p.tenMbit + if x.2 then ifgCountInit p else 0

def TxIn (p : Params) : Stage → RmiiTxBytes.Regs → Prop
  | rest => Resting
  | taken x => Taken p x
  | byte x => ByteAt p x

def RxIn : Stage → RmiiRxBytes.Regs → Prop
  | rest => Idle
  | taken _ => Idle
  | byte _ => fun r => ∃ sh, RmiiRxBytes.At .payload 0 sh 0 r

def In (p : Params) (ph : Stage) (t : RmiiTxBytes.Regs) (r : RmiiRxBytes.Regs) : Prop :=
  ph.TxIn p t ∧ ph.RxIn r

/-- What is reported in a segment. -/
def events : Stage → List Event
  | rest => []
  | taken _ => [.start]
  | byte x => byteEvents x

/-- What is reported from the beginning of a segment on, when the bytes are taken after it. -/
def owed : Stage → List Item → List Event
  | rest, xs => expected false xs
  | taken x, xs => .start :: (byteEvents x ++ expected (!x.2) xs)
  | byte x, xs => byteEvents x ++ expected (!x.2) xs

/-- How many segments there are at most before the next byte is taken. -/
def rank : Stage → Nat
  | rest => 0
  | byte _ => 1
  | taken _ => 2

theorem events_isPrefix (ph : Stage) (xs : List Item) : ph.events <+: ph.owed xs := by
  cases ph with
  | rest => exact List.nil_prefix
  | taken x => exact ⟨_, rfl⟩
  | byte x => exact List.prefix_append _ _

theorem period_pos (tenMbit : Bool) : 0 < period tenMbit := by
  cases tenMbit <;> decide

theorem len_pos (p : Params) (ph : Stage) : 0 < ph.len p := by
  have hpos := period_pos p.tenMbit
  cases ph with
  | rest => exact Nat.one_pos
  | taken x => simp only [len]; omega
  | byte x => simp only [len]; omega

end Stage

abbrev stages (p : Params) : (serial p).Stages Stage where
  In := Stage.In p
  len := Stage.len p
  events := Stage.events
  owed := Stage.owed

/-- What a segment does, and that it leads towards the next byte. -/
structure Segment (p : Params) (ph : Stage) (t : RmiiTxBytes.Regs) (r : RmiiRxBytes.Regs)
    (is : List RmiiTxBytes.Pins) (ph' : Stage) : Prop
    extends SerialLink.Segment (stages p) ph t r is ph' where
  progress : (∀ i ∈ is, i.sFrameTvalid = true) ∨ ph ≠ .rest →
    (serial p).taken t is ≠ [] ∨ ph'.rank < ph.rank

section Segments

variable {p : Params} {t : RmiiTxBytes.Regs} {r : RmiiRxBytes.Regs} {is : List RmiiTxBytes.Pins}
  {x : Item}

/-- A clock of rest: nothing is heard. -/
theorem heard_rest (hr : Idle r) :
    Idle (run (serial p).hear r [(false, 0)]) ∧ (serial p).heard r [(false, 0)] = [] := by
  refine heard_triple (rx_idle fun i hi => ?_) hr
  rw [List.map_singleton, List.mem_singleton] at hi
  rw [hi]
  exact ⟨rfl, rfl⟩

theorem segment_rest (hfull : p.halfDuplex = false) (ht : Resting t) (hr : Idle r)
    (hlen : is.length = 1) (hon : ∀ i ∈ is, i.rstN = true) :
    ∃ ph', Segment p .rest t r is ph' := by
  obtain ⟨i, rfl⟩ := List.length_eq_one_iff.mp hlen
  have hi := hon i List.mem_cons_self
  have hline : (serial p).line t [i] = [(false, 0)] := by simp [SerialLink.line, shows, ht.txen, ht.txd]
  obtain ⟨hidle, hnone⟩ := heard_rest (p := p) hr
  have hready : sFrameTready p t i = true := by
    simp [sFrameTready, idleReady, deferActive, hfull, ht.state, ht.ifg]
  by_cases hvalid : i.sFrameTvalid = true
  · have htaken : (serial p).taken t [i] = [(i.sFrameTdata, i.sFrameTlast)] := by
      simp [SerialLink.taken, shows, hready, hvalid]
    refine ⟨.taken (i.sFrameTdata, i.sFrameTlast),
      ⟨⟨⟨idle_load hfull hi hvalid ht, ?_⟩, ?_, ?_, rfl⟩, ?_⟩⟩
    · rw [hline]
      exact hidle
    · rw [hline]
      exact hnone
    · intro xs
      rw [htaken]
      simp [Stage.owed, Stage.events, expected]
    · intro _
      rw [htaken]
      exact .inl (by simp)
  · have hvalid : i.sFrameTvalid = false := by simpa using hvalid
    have htaken : (serial p).taken t [i] = [] := by simp [SerialLink.taken, shows, hvalid]
    refine ⟨.rest, ⟨⟨⟨idle_quiet hfull hi hvalid ht, ?_⟩, ?_, ?_, rfl⟩, ?_⟩⟩
    · rw [hline]
      exact hidle
    · rw [hline]
      exact hnone
    · intro xs
      rw [htaken]
      rfl
    · rintro (hall | hne)
      · rw [hall i List.mem_cons_self] at hvalid
        cases hvalid
      · exact absurd rfl hne

theorem segment_taken (ht : Taken p x t) (hr : Idle r)
    (hlen : is.length = 32 * period p.tenMbit) (hon : ∀ i ∈ is, i.rstN = true) :
    Segment p (.taken x) t r is (.byte x) := by
  obtain ⟨ht', hline, htaken⟩ := SerialLink.line_silent (L := serial p) (tx_preamble hlen hon) ht
  obtain ⟨hr', hheard⟩ := heard_triple (rx_start (carries_wave p.tenMbit preambleDibits)) hr
  refine ⟨⟨⟨ht', ?_⟩, ?_, ?_, SerialLink.taken_of_isPrefix (List.dropLast_prefix is) htaken⟩, ?_⟩
  · rw [hline]
    exact ⟨_, hr'⟩
  · rw [hline]
    exact hheard
  · intro xs
    rw [htaken]
    rfl
  · intro _
    exact .inr (Nat.one_lt_two)

/-- The four dibits of a byte are heard as the byte. -/
theorem heard_byte {sh : Byte} (b : Byte) (hr : RmiiRxBytes.At .payload 0 sh 0 r) :
    RmiiRxBytes.At .payload 0 b 0 (run (serial p).hear r
        (wave p.tenMbit [dibit b 0, dibit b 1, dibit b 2, dibit b 3])) ∧
      (serial p).heard r (wave p.tenMbit [dibit b 0, dibit b 1, dibit b 2, dibit b 3]) = [.byte b] :=
  heard_triple (rx_dataDibits (x := (b, false, false)) (.inr ⟨rfl, rfl⟩)
    (carries_wave p.tenMbit [dibit b 0, dibit b 1, dibit b 2, dibit b 3])) hr

theorem segment_lastByte {b : Byte} (ht : ByteAt p (b, true) t)
    (hr : (Stage.byte (b, true)).RxIn r)
    (hlen : is.length = 4 * period p.tenMbit + ifgCountInit p) (hon : ∀ i ∈ is, i.rstN = true) :
    Segment p (.byte (b, true)) t r is .rest := by
  obtain ⟨sh, hr⟩ := hr
  obtain ⟨ht', hline, htaken⟩ := SerialLink.line_silent (L := serial p) (tx_lastByte hlen hon) ht
  obtain ⟨hr₁, hheard₁⟩ := heard_byte (p := p) b hr
  have hgap : 5 ≤ ((List.replicate (ifgCountInit p) (false, (0 : Dibit))).map toRx).length := by
    rw [List.length_map, List.length_replicate]
    unfold ifgCountInit
    split <;> decide
  obtain ⟨hr₂, hheard₂⟩ := heard_triple (rx_tail (by decide) hgap fun i hi => by
    rw [List.map_replicate] at hi
    rw [List.eq_of_mem_replicate hi]
    exact ⟨rfl, rfl⟩) hr₁
  refine ⟨⟨⟨ht', ?_⟩, ?_, ?_, SerialLink.taken_of_isPrefix (List.dropLast_prefix is) htaken⟩, ?_⟩
  · rw [hline, run_append]
    exact hr₂
  · rw [hline, SerialLink.heard_append, hheard₁, hheard₂]
    rfl
  · intro xs
    rw [htaken]
    rfl
  · intro _
    exact .inr (Nat.zero_lt_one)

theorem segment_byte {b : Byte} (ht : ByteAt p (b, false) t)
    (hr : (Stage.byte (b, false)).RxIn r) (hfed : Fed p t is)
    (hlen : is.length = 4 * period p.tenMbit) :
    ∃ x, Segment p (.byte (b, false)) t r is (.byte x) := by
  have hpos := Stage.period_pos p.tenMbit
  obtain ⟨front, i, rfl⟩ : ∃ front i, is = front ++ [i] := by
    have hne : is ≠ [] := List.ne_nil_of_length_pos (by omega)
    exact ⟨is.dropLast, is.getLast hne, (List.dropLast_append_getLast hne).symm⟩
  rw [List.length_append, List.length_singleton] at hlen
  obtain ⟨hon, hnext⟩ := hfed front i (List.prefix_refl _)
  obtain ⟨ht', hline, htaken⟩ := SerialLink.line_silent (L := serial p) (tx_byte hlen hfed.left.on) ht
  generalize hnow : run (RmiiTxBytes.step p) t front = now at ht' hnext
  have hready : sFrameTready p now i = true := by
    simp [sFrameTready, advanceNow, ht'.state, ht'.haveByte, ht'.tick]
  have hvalid := hnext ht'.state hready
  obtain ⟨sh, hr⟩ := hr
  obtain ⟨hr₁, hheard₁⟩ := heard_byte (p := p) b hr
  have hlineAll : (serial p).line t (front ++ [i]) =
      wave p.tenMbit [dibit b 0, dibit b 1, dibit b 2, dibit b 3] := by
    rw [SerialLink.line_append, hline, hnow]
    have hlast : (serial p).line now [i] = [(true, dibit b 3)] := by simp [SerialLink.line, shows, ht'.txen, ht'.txd]
    rw [hlast, List.append_assoc, ← List.replicate_succ', ← period_eq]
    simp [wave]
  have htakenAll : (serial p).taken t (front ++ [i]) = [(i.sFrameTdata, i.sFrameTlast)] := by
    rw [SerialLink.taken_append, htaken, hnow]
    simp [SerialLink.taken, shows, hready, hvalid]
  refine ⟨(i.sFrameTdata, i.sFrameTlast), ⟨⟨⟨?_, ?_⟩, ?_, ?_, ?_⟩, ?_⟩⟩
  · rw [run_snoc, hnow]
    exact data_load hon hvalid ht'
  · rw [hlineAll]
    exact ⟨_, hr₁⟩
  · rw [hlineAll]
    exact hheard₁
  · intro xs
    rw [htakenAll]
    simp [Stage.owed, Stage.events, expected]
  · rw [List.dropLast_concat]
    exact htaken
  · intro _
    rw [htakenAll]
    exact .inl (by simp)

/-- **Every segment does what it should.** -/
theorem segment (hfull : p.halfDuplex = false) {ph : Stage} (ht : ph.TxIn p t) (hr : ph.RxIn r)
    (hfed : Fed p t is) (hlen : is.length = ph.len p) : ∃ ph', Segment p ph t r is ph' := by
  cases ph with
  | rest => exact segment_rest hfull ht hr hlen hfed.on
  | taken x => exact ⟨_, segment_taken ht hr hlen hfed.on⟩
  | byte x =>
    obtain ⟨b, last⟩ := x
    cases last with
    | true => exact ⟨_, segment_lastByte ht hr hlen hfed.on⟩
    | false =>
      obtain ⟨x, hx⟩ := segment_byte ht hr hfed hlen
      exact ⟨_, hx⟩

end Segments

/-! ## Whole runs -/

/-- How long a segment and those before the next byte may take. -/
def Stage.left (p : Params) : Stage → Nat
  | .rest => 0
  | .taken _ => 36 * period p.tenMbit + ifgCountInit p
  | .byte _ => 4 * period p.tenMbit + ifgCountInit p

/-- The longest time from the moment a byte is taken to the end of its frame, if it is the only
one: the preamble, the byte and the gap. -/
def maxDelay (p : Params) : Nat := 36 * period p.tenMbit + ifgCountInit p

theorem Stage.left_le (p : Params) (ph : Stage) : ph.left p ≤ maxDelay p := by
  unfold maxDelay
  cases ph with
  | rest => exact Nat.zero_le _
  | taken x => exact Nat.le_refl _
  | byte x => simp only [left]; omega

theorem Stage.len_le_left (p : Params) (ph : Stage) : ph.len p ≤ ph.left p + 1 := by
  cases ph with
  | rest => exact Nat.le_refl 1
  | taken x => simp only [len, left]; omega
  | byte x => simp only [len, left]; split <;> omega

theorem Stage.left_of_rank (p : Params) {ph ph' : Stage} (h : ph'.rank < ph.rank) :
    ph'.left p + ph.len p ≤ ph.left p := by
  cases ph with
  | rest => exact absurd h (Nat.not_lt_zero _)
  | taken x =>
    cases ph' with
    | taken y => exact absurd h (Nat.lt_irrefl _)
    | rest => simp only [len, left]; omega
    | byte y => simp only [len, left]; omega
  | byte x =>
    cases ph' with
    | taken y => exact absurd h (Nat.not_lt.mpr (Nat.le_succ 1))
    | byte y => exact absurd h (Nat.lt_irrefl _)
    | rest => simp only [len, left]; split <;> omega

section Runs

variable {p : Params} {ph : Stage} {t : RmiiTxBytes.Regs} {r : RmiiRxBytes.Regs}
  {is : List RmiiTxBytes.Pins}

/-- Cycles that begin a segment, with the rest of the segment. -/
theorem exists_padding {n : Nat} (hlen : is.length ≤ n) (hfed : Fed p t is) :
    ∃ js, (is ++ js).length = n ∧ Fed p t (is ++ js) := by
  let byte : RmiiTxBytes.Pins := ⟨true, false, 0, true, true⟩
  refine ⟨List.replicate (n - is.length) byte, ?_, hfed.append fun j hj => ?_⟩
  · rw [List.length_append, List.length_replicate]
    omega
  · rw [List.eq_of_mem_replicate hj]
    exact ⟨rfl, rfl⟩

theorem stages_sound (hfull : p.halfDuplex = false) : (stages p).Sound (Fed p) where
  len_pos := Stage.len_pos p
  events_isPrefix := Stage.events_isPrefix
  fed_left := Fed.left
  fed_right := Fed.right
  padding hfed hlen := exists_padding hlen hfed
  segment hin hfed hlen := by
    obtain ⟨ph', hseg⟩ := segment hfull hin.1 hin.2 hfed hlen
    exact ⟨ph', hseg.toSegment⟩

/-- What is under way is reported in time. -/
theorem owed_nil_isPrefix (hfull : p.halfDuplex = false) (hin : ph.In p t r)
    (hfed : Fed p t is) (hlen : maxDelay p ≤ is.length) :
    ph.owed [] <+: (serial p).heard r ((serial p).line t is) := by
  obtain ⟨ht, hr⟩ := hin
  replace hlen := (ph.left_le p).trans hlen
  -- the end of a byte; a preamble is followed by one
  have hbyte : ∀ {x t r is}, (Stage.byte x).TxIn p t → (Stage.byte x).RxIn r → Fed p t is →
      (Stage.byte x).left p ≤ is.length →
      (Stage.byte x).owed [] <+: (serial p).heard r ((serial p).line t is) := by
    intro x t r is ht hr hfed hlen
    have hle : (Stage.byte x).len p ≤ is.length := by
      refine le_trans ?_ hlen
      simp only [Stage.len, Stage.left]
      split <;> omega
    obtain ⟨a, b, rfl, ha⟩ := SerialLink.exists_start hle
    obtain ⟨ph', hseg⟩ := segment hfull ht hr hfed.left ha
    have howed : (Stage.byte x).owed [] = (Stage.byte x).events := List.append_nil _
    rw [hseg.heard_append, howed]
    exact List.prefix_append _ _
  cases ph with
  | rest => exact List.nil_prefix
  | byte x => exact hbyte ht hr hfed hlen
  | taken x =>
    simp only [Stage.left] at hlen
    obtain ⟨a, b, rfl, ha⟩ := SerialLink.exists_start (by omega : 32 * period p.tenMbit ≤ is.length)
    have hseg := segment_taken ht hr ha hfed.left.on
    have howed : (Stage.taken x).owed [] = (Stage.taken x).events ++ (Stage.byte x).owed [] := rfl
    rw [hseg.heard_append, howed, List.prefix_append_right_inj]
    rw [List.length_append] at hlen
    exact hbyte hseg.next.1 hseg.next.2 hfed.right (by simp only [Stage.left]; omega)

/-- A transmitter that is offered bytes gets to the point where it takes one. -/
theorem taken_soon (hfull : p.halfDuplex = false) {a q : List RmiiTxBytes.Pins}
    (ht : ph.TxIn p t) (hr : ph.RxIn r) (hfed : Fed p t (a ++ q)) (ha : a.length < ph.len p)
    (hq : ∀ i ∈ q, i.sFrameTvalid = true) (hlen : ph.left p < (a ++ q).length) :
    (serial p).taken t (a ++ q) ≠ [] := by
  induction hn : ph.rank using Nat.strong_induction_on generalizing ph t r a q with
  | _ n ih =>
    have hle := ph.len_le_left p
    rw [List.length_append] at hlen
    obtain ⟨c, d, rfl, hc⟩ := SerialLink.exists_start (by omega : ph.len p - a.length ≤ q.length)
    rw [← List.append_assoc] at hfed ⊢
    have hlenc : (a ++ c).length = ph.len p := by
      rw [List.length_append]
      omega
    obtain ⟨ph', hseg⟩ := segment hfull ht hr hfed.left hlenc
    rw [SerialLink.taken_append]
    intro hnone
    obtain ⟨hnone₁, hnone₂⟩ := List.append_eq_nil_iff.mp hnone
    have hrank : ph'.rank < ph.rank := by
      refine (hseg.progress ?_).resolve_left fun hne => hne hnone₁
      by_cases hrest : ph = .rest
      · left
        intro i hi
        subst hrest
        obtain rfl : a = [] := List.eq_nil_of_length_eq_zero (Nat.lt_one_iff.mp ha)
        exact hq i (List.mem_append_left _ hi)
      · exact .inr hrest
    have hleft := Stage.left_of_rank p hrank
    rw [List.length_append] at hlen
    exact ih ph'.rank (hn ▸ hrank) (a := []) hseg.next.1 hseg.next.2 hfed.right (ph'.len_pos p)
      (fun i hi => hq i (List.mem_append_right _ hi)) (by rw [List.nil_append]; omega) rfl hnone₂

/-- **The transmitter goes on.** -/
theorem taken_grows (hfull : p.halfDuplex = false) {pre q : List RmiiTxBytes.Pins}
    (ht : ph.TxIn p t) (hr : ph.RxIn r) (hfed : Fed p t (pre ++ q))
    (hq : ∀ i ∈ q, i.sFrameTvalid = true) (hlen : maxDelay p < q.length) :
    (serial p).taken (run (RmiiTxBytes.step p) t pre) q ≠ [] := by
  induction hn : pre.length using Nat.strong_induction_on generalizing ph t r pre with
  | _ n ih =>
    by_cases hle : ph.len p ≤ pre.length
    · obtain ⟨a, b, rfl, ha⟩ := SerialLink.exists_start hle
      rw [List.append_assoc] at hfed
      obtain ⟨ph', hseg⟩ := segment hfull ht hr hfed.left ha
      have hpos := ph.len_pos p
      rw [List.length_append] at hn
      rw [run_append]
      exact ih b.length (by omega) hseg.next.1 hseg.next.2 hfed.right rfl
    · have hleft := ph.left_le p
      have hsoon := taken_soon hfull ht hr hfed (by omega) hq (by rw [List.length_append]; omega)
      have hinside := (stages_sound hfull).taken_inside ⟨ht, hr⟩ hfed.left (not_le.mp hle)
      rwa [SerialLink.taken_append, hinside, List.nil_append] at hsoon

end Runs

/-! ## The two circuits -/

abbrev LoopRegs := RmiiTxBytes.Regs × RmiiRxBytes.Regs

/-- The pins of the receiver in the loop: `eth_rxerr` is low. -/
def rxPins (s : LoopRegs) (i : RmiiTxBytes.Pins) : RmiiRxBytes.Pins :=
  ⟨i.rstN, s.1.ethTxen, false, s.1.ethTxd⟩

def loopStep (p : Params) (s : LoopRegs) (i : RmiiTxBytes.Pins) : LoopRegs :=
  (RmiiTxBytes.step p s.1 i, RmiiRxBytes.step p.tenMbit s.2 (rxPins s i))

/-- The pulses of the receiver. -/
def loopReports (p : Params) (s : LoopRegs) (i : RmiiTxBytes.Pins) : List Event :=
  reports p.tenMbit s.2 (rxPins s i)

/-- The byte that the transmitter takes. -/
def loopAccepted (p : Params) (s : LoopRegs) (i : RmiiTxBytes.Pins) : List Item :=
  if sFrameTready p s.1 i && i.sFrameTvalid then [(i.sFrameTdata, i.sFrameTlast)] else []

section Loop

variable {p : Params}

theorem loop_accepted (s : LoopRegs) (is : List RmiiTxBytes.Pins) :
    trace (loopStep p) (loopAccepted p) s is = (serial p).taken s.1 is := by
  induction is generalizing s with
  | nil => rfl
  | cons i is ih =>
    rw [trace_cons, ih]
    simp [SerialLink.taken, loopStep, loopAccepted, shows]

theorem loop_reports (s : LoopRegs) {is : List RmiiTxBytes.Pins} (hon : ∀ i ∈ is, i.rstN = true) :
    trace (loopStep p) (loopReports p) s is =
      trace (RmiiRxBytes.step p.tenMbit) (reports p.tenMbit) s.2 (((serial p).line s.1 is).map toRx) := by
  induction is generalizing s with
  | nil => rfl
  | cons i is ih =>
    have hpins : rxPins s i = toRx (s.1.ethTxen, s.1.ethTxd) := by
      rw [rxPins, hon i List.mem_cons_self]
      rfl
    have hline : (serial p).line s.1 (i :: is) =
        (s.1.ethTxen, s.1.ethTxd) :: (serial p).line (RmiiTxBytes.step p s.1 i) is := rfl
    rw [trace_cons, ih _ fun j hj => hon j (List.mem_cons_of_mem _ hj), hline, List.map_cons,
      trace_cons, loopReports, loopStep, hpins]

/-- As long as there was no receive error, no error is reported. -/
theorem reports_eq_kinds {r : RmiiRxBytes.Regs} (hr : r.frameErrorLatch = false)
    (x : Bool × Dibit) : reports p.tenMbit r (toRx x) = kinds p.tenMbit r (toRx x) ∧
      (RmiiRxBytes.step p.tenMbit r (toRx x)).frameErrorLatch = false := by
  have hnone : (RmiiRxBytes.step p.tenMbit r (toRx x)).rxFrameError = false ∧
      (RmiiRxBytes.step p.tenMbit r (toRx x)).frameErrorLatch = false := by
    cases hst : r.state with
    | idle =>
      rw [RmiiRxBytes.step_idle rfl hst, RmiiRxBytes.idleStep]
      split <;> simp [RmiiRxBytes.tick]
    | preamble =>
      rw [RmiiRxBytes.step_preamble rfl hst, RmiiRxBytes.preambleStep]
      repeat' split
      all_goals simp [RmiiRxBytes.tick, toRx, hr]
    | payload =>
      rw [RmiiRxBytes.step_payload rfl hst, RmiiRxBytes.payloadStep]
      repeat' split
      all_goals simp [RmiiRxBytes.tick, toRx, hr]
  refine ⟨?_, hnone.2⟩
  simp only [kinds, reports, Regs.events, hnone.1, List.map_append]
  congr 1
  · congr 1 <;> split <;> rfl
  · split <;> rfl

theorem reports_eq_heard {r : RmiiRxBytes.Regs} (hr : r.frameErrorLatch = false)
    (xs : List (Bool × Dibit)) :
    trace (RmiiRxBytes.step p.tenMbit) (reports p.tenMbit) r (xs.map toRx) = (serial p).heard r xs := by
  induction xs generalizing r with
  | nil => rfl
  | cons x xs ih =>
    obtain ⟨hnow, hnext⟩ := reports_eq_kinds (p := p) hr x
    rw [List.map_cons, trace_cons, hnow, ih hnext]
    rfl

end Loop

/-- **RMII round trip.** The transmitter and the receiver are reset together, and then a full
duplex transmitter finds the next byte of a frame whenever it can take it. Then

* the receiver reports nothing but the bytes that were taken, in order, with the beginning and
  the end of each frame, and reports no error;
* what was taken has been reported after `maxDelay` further cycles;
* a transmitter that is offered bytes takes one within `maxDelay + 1` cycles;
* so when nonempty frames have been taken and the delay is over, the reports are, frame by
  frame, one `rx_frame_start`, the bytes, and one `rx_frame_end` without error. -/
theorem rmii_round_trip {p : Params} (hfull : p.halfDuplex = false) {s₀ : LoopRegs}
    {i₀ : RmiiTxBytes.Pins} (hreset : i₀.rstN = false) {cycles : List RmiiTxBytes.Pins}
    (hfed : Fed p (RmiiTxBytes.step p s₀.1 i₀) cycles) :
    let s := loopStep p s₀ i₀
    let accepted := trace (loopStep p) (loopAccepted p) s
    let reported := trace (loopStep p) (loopReports p) s
    reported cycles <+: expected false (accepted cycles) ∧
    ∀ pre q, cycles = pre ++ q →
      (maxDelay p ≤ q.length → expected false (accepted pre) <+: reported cycles) ∧
      (maxDelay p < q.length → (∀ i ∈ q, i.sFrameTvalid = true) →
        (accepted pre).length < (accepted cycles).length) ∧
      ∀ frames : List (List Byte), (∀ f ∈ frames, f ≠ []) → maxDelay p ≤ q.length →
        accepted pre = frames.flatMap frameItems → accepted cycles = accepted pre →
        reported cycles = frames.flatMap frameEvents := by
  intro s accepted reported
  have hs : s = (negedge .reset, .reset) := by
    simp [s, loopStep, rxPins, RmiiTxBytes.step, posedge, RmiiRxBytes.step, hreset]
  have ht : Stage.rest.TxIn p s.1 := by rw [hs]; exact ⟨rfl, rfl, rfl, rfl, rfl⟩
  have hr : Stage.rest.RxIn s.2 := by rw [hs]; exact rfl
  have hin : (stages p).In .rest s.1 s.2 := ⟨ht, hr⟩
  have hlatch : s.2.frameErrorLatch = false := by rw [hs]; rfl
  have haccepted : ∀ is, accepted is = (serial p).taken s.1 is := loop_accepted s
  have hreported : reported cycles = (serial p).heard s.2 ((serial p).line s.1 cycles) :=
    (loop_reports s hfed.on).trans (reports_eq_heard hlatch _)
  have hsafe : reported cycles <+: expected false (accepted cycles) := by
    rw [hreported, haccepted]
    exact (stages_sound hfull).heard_isPrefix hin hfed
  refine ⟨hsafe, ?_⟩
  intro pre q hcycles
  have hlive : maxDelay p ≤ q.length → expected false (accepted pre) <+: reported cycles := by
    intro hq
    rw [hreported, haccepted, hcycles]
    exact (stages_sound hfull).owed_isPrefix (owed_nil_isPrefix hfull) hin (hcycles ▸ hfed) hq
  refine ⟨hlive, ?_, ?_⟩
  · intro hq hvalid
    have hgrows := taken_grows hfull ht hr (hcycles ▸ hfed) hvalid hq
    rw [haccepted, haccepted, hcycles, SerialLink.taken_append, List.length_append]
    exact Nat.lt_add_of_pos_right (List.length_pos_iff.mpr hgrows)
  · intro frames hframes hq hpre hall
    have hexpected := expected_frames hframes
    rw [← hpre] at hexpected
    rw [← hexpected]
    refine List.IsPrefix.eq_of_length_le ?_ (hlive hq).length_le
    rw [← hall]
    exact hsafe

/-- A frame with the two bytes 0xd5 and 0x00 at 100 Mb/s: the second byte is there when the first
one has been sent, and then nothing is offered until the gap is over. -/
def twoBytes : List RmiiTxBytes.Pins :=
  ⟨true, false, 0xd5, true, false⟩ :: List.replicate 36 ⟨true, false, 0x00, true, true⟩ ++
    List.replicate 83 ⟨true, false, 0x00, false, false⟩

theorem rmii_round_trip_twoBytes :
    trace (loopStep ⟨false, false⟩) (loopReports ⟨false, false⟩)
      (loopStep ⟨false, false⟩ (.reset, .reset) ⟨false, false, 0, false, false⟩) twoBytes =
      [.start, .byte 0xd5, .byte 0x00, .stop false] := by
  have hfed : Fed ⟨false, false⟩ (RmiiTxBytes.step ⟨false, false⟩ .reset
      ⟨false, false, 0, false, false⟩) twoBytes := Fed.of_take (by decide +kernel)
  exact ((rmii_round_trip rfl rfl hfed).2 (twoBytes.take 37) (twoBytes.drop 37)
    (List.take_append_drop 37 twoBytes).symm).2.2 [[0xd5, 0x00]] (by decide) (by decide)
    (by decide +kernel) (by decide +kernel)

end FpgaHashJoin.RmiiLoopback
