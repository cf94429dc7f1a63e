import FpgaHashJoin.Clocked

/-!
# The RMII receiver

`rmii_rx_bytes.v`: dibits are sampled once per period, a period being one clock at 100 Mb/s
and ten clocks at 10 Mb/s. The receiver skips the preamble, then passes on one byte for four
dibits until the carrier has been low for some clocks.

CRS_DV may toggle while the data of a frame is still coming: it may be low on the first dibit
of a nibble. The receiver bridges a low clock by the value of the clock before. At 100 Mb/s
that is enough. At 10 Mb/s a low dibit lasts ten clocks, and the clocks are what the receiver
counts: it ends the frame in the middle of the dibit (`crsDvTolerant_iff`).
-/

namespace FpgaHashJoin.RmiiRxBytes

open Clocked

abbrev Byte := BitVec 8
abbrev Dibit := BitVec 2

/-- The input pins. -/
structure Pins where
  rstN : Bool
  ethCrsdv : Bool
  ethRxerr : Bool
  ethRxd : Dibit
  deriving DecidableEq

inductive St where
  | idle
  | preamble
  | payload
  deriving DecidableEq, Repr

structure Regs where
  state : St
  dibitCount : Nat
  shift : Byte
  frameErrorLatch : Bool
  crsdvD1 : Bool
  crsdvLowCount : Nat
  sampleGap : Nat
  rxByte : Byte
  rxByteValid : Bool
  rxFrameStart : Bool
  rxFrameEnd : Bool
  rxFrameError : Bool
  sfdSeen : Bool
  deriving DecidableEq

def Regs.reset : Regs where
  state := .idle
  dibitCount := 0
  shift := 0
  frameErrorLatch := false
  crsdvD1 := false
  crsdvLowCount := 0
  sampleGap := 0
  rxByte := 0
  rxByteValid := false
  rxFrameStart := false
  rxFrameEnd := false
  rxFrameError := false
  sfdSeen := false

def endGapCycles : Nat := 4

/-- Put a dibit in front of the register: the wire `next_byte`. -/
def nextByte (d : Dibit) (shift : Byte) : Byte := (d ++ shift.extractLsb' 2 6 : BitVec 8)

def nextSampleGap (tenMbit : Bool) : Nat := if tenMbit then 9 else 0

def sfd : Byte := 0xd5

def sampleNow (tenMbit : Bool) (s : Regs) : Bool := !tenMbit || s.sampleGap = 0

/-- The assignments of every cycle: the pulses are cleared, and errors are latched outside of
`ST_IDLE`. -/
def tick (s : Regs) (i : Pins) : Regs :=
  { s with
    rxByteValid := false
    rxFrameStart := false
    rxFrameEnd := false
    rxFrameError := false
    sfdSeen := false
    crsdvD1 := i.ethCrsdv
    frameErrorLatch := s.frameErrorLatch || (decide (s.state ≠ .idle) && i.ethRxerr) }

def idleStep (tenMbit : Bool) (s : Regs) (i : Pins) : Regs :=
  let s := { tick s i with
    dibitCount := 0
    shift := 0
    frameErrorLatch := false
    crsdvLowCount := 0
    sampleGap := 0 }
  if i.ethCrsdv then
    { s with
      state := .preamble
      shift := i.ethRxd ++ (0 : BitVec 6)
      dibitCount := 1
      sampleGap := nextSampleGap tenMbit }
  else s

def preambleStep (tenMbit : Bool) (s : Regs) (i : Pins) : Regs :=
  let next := nextByte i.ethRxd s.shift
  if !i.ethCrsdv then { tick s i with state := .idle }
  else if !sampleNow tenMbit s then { tick s i with sampleGap := s.sampleGap - 1 }
  else if next = sfd then
    { tick s i with
      sampleGap := nextSampleGap tenMbit
      shift := next
      state := .payload
      dibitCount := 0
      sfdSeen := true
      rxFrameStart := true
      crsdvLowCount := 0 }
  else
    { tick s i with
      sampleGap := nextSampleGap tenMbit
      shift := next
      dibitCount := if s.dibitCount = 3 then 0 else s.dibitCount + 1 }

def payloadStep (tenMbit : Bool) (s : Regs) (i : Pins) : Regs :=
  let next := nextByte i.ethRxd s.shift
  let rmiiRxDv := i.ethCrsdv || s.crsdvD1
  if !rmiiRxDv then
    if s.crsdvLowCount = endGapCycles - 1 then
      { tick s i with
        state := .idle
        rxFrameEnd := true
        rxFrameError := s.frameErrorLatch
        dibitCount := 0
        crsdvLowCount := 0 }
    else { tick s i with crsdvLowCount := s.crsdvLowCount + 1 }
  else if !sampleNow tenMbit s then { tick s i with sampleGap := s.sampleGap - 1 }
  else
    let s' := { tick s i with
      sampleGap := nextSampleGap tenMbit
      crsdvLowCount := if i.ethCrsdv then 0 else s.crsdvLowCount
      shift := next }
    if s.dibitCount = 3 then { s' with dibitCount := 0, rxByte := next, rxByteValid := true }
    else { s' with dibitCount := s.dibitCount + 1 }

/-- One cycle. -/
def step (tenMbit : Bool) (s : Regs) (i : Pins) : Regs :=
  if !i.rstN then .reset
  else
    match s.state with
    | .idle => idleStep tenMbit s i
    | .preamble => preambleStep tenMbit s i
    | .payload => payloadStep tenMbit s i

/-! ## Events -/

/-- What the receiver reports. -/
inductive Event where
  | start
  | byte (b : Byte)
  | stop (error : Bool)
  deriving DecidableEq, Repr

/-- The pulses after a cycle. -/
def Regs.events (s : Regs) : List Event :=
  (if s.rxFrameStart then [.start] else []) ++ (if s.rxByteValid then [.byte s.rxByte] else []) ++
    (if s.rxFrameEnd then [.stop s.rxFrameError] else [])

def reports (tenMbit : Bool) (s : Regs) (i : Pins) : List Event := (step tenMbit s i).events

/-- The event without the error flag. -/
def Event.kind : Event → Event
  | .stop _ => .stop false
  | e => e

/-- What is reported in a cycle, without the error flag. -/
def kinds (tenMbit : Bool) (s : Regs) (i : Pins) : List Event :=
  (reports tenMbit s i).map Event.kind

abbrev RxTriple (tenMbit : Bool) (P : Regs → Prop) (is : List Pins) (events : List Event)
    (Q : Regs → Prop) : Prop :=
  Triple (step tenMbit) (kinds tenMbit) P is events Q

/-! ## Dibits -/

/-- The clocks of a dibit. -/
def period (tenMbit : Bool) : Nat := if tenMbit then 10 else 1

/-- The pins carry a dibit for one period; RXERR may have any value. -/
def Holds (tenMbit : Bool) (crsdv : Bool) (d : Dibit) (is : List Pins) : Prop :=
  is.length = period tenMbit ∧ ∀ i ∈ is, i.rstN = true ∧ i.ethCrsdv = crsdv ∧ i.ethRxd = d

/-- The receiver is in the middle of a frame and has seen the carrier in the last clock. -/
structure At (st : St) (n : Nat) (sh : Byte) (gap : Nat) (s : Regs) : Prop where
  state : s.state = st
  count : s.dibitCount = n
  shift : s.shift = sh
  gap : s.sampleGap = gap
  carrier : s.crsdvD1 = true
  low : s.crsdvLowCount = 0

def Idle (s : Regs) : Prop := s.state = .idle

section Dibits

variable {tenMbit : Bool} {st : St} {n gap : Nat} {sh : Byte} {d : Dibit} {s : Regs} {i : Pins}

theorem step_idle (hon : i.rstN = true) (hs : s.state = .idle) :
    step tenMbit s i = idleStep tenMbit s i := by
  simp [step, hon, hs]

theorem step_preamble (hon : i.rstN = true) (hs : s.state = .preamble) :
    step tenMbit s i = preambleStep tenMbit s i := by
  simp [step, hon, hs]

theorem step_payload (hon : i.rstN = true) (hs : s.state = .payload) :
    step tenMbit s i = payloadStep tenMbit s i := by
  simp [step, hon, hs]

/-- A clock between two samples. -/
theorem step_gap (hst : st ≠ .idle) (hs : At st n sh (gap + 1) s) (hon : i.rstN = true)
    (hcrsdv : i.ethCrsdv = true) : step true s i = { tick s i with sampleGap := gap } := by
  have hnow : sampleNow true s = false := by simp [sampleNow, hs.gap]
  cases st with
  | idle => exact absurd rfl hst
  | preamble => simp [step_preamble hon hs.state, preambleStep, hcrsdv, hnow, hs.gap]
  | payload => simp [step_payload hon hs.state, payloadStep, hcrsdv, hnow, hs.gap]

/-- Between two samples nothing happens. -/
theorem rx_gap (hst : st ≠ .idle) {is : List Pins}
    (hhigh : ∀ i ∈ is, i.rstN = true ∧ i.ethCrsdv = true) :
    RxTriple true (At st n sh is.length) is [] (At st n sh 0) := by
  induction is with
  | nil => exact Triple.nil _
  | cons i is ih =>
    obtain ⟨hon, hcrsdv⟩ := hhigh i List.mem_cons_self
    refine Triple.append (Triple.one fun s hs => ?_ : RxTriple true _ [i] [] _)
      (ih fun j hj => hhigh j (List.mem_cons_of_mem _ hj))
    rw [kinds, reports, step_gap hst hs hon hcrsdv]
    exact ⟨⟨hs.state, hs.count, hs.shift, rfl, hcrsdv, hs.low⟩, rfl⟩

/-- A sample and the rest of its period. -/
theorem rx_dibit {st' : St} {n' : Nat} {sh' : Byte} {P : Regs → Prop} {events : List Event}
    {is : List Pins} (hst : st' ≠ .idle) (h : Holds tenMbit true d is)
    (hsample : ∀ s i, P s → i.rstN = true → i.ethCrsdv = true → i.ethRxd = d →
      At st' n' sh' (nextSampleGap tenMbit) (step tenMbit s i) ∧ kinds tenMbit s i = events) :
    RxTriple tenMbit P is events (At st' n' sh' 0) := by
  obtain ⟨hlen, hpins⟩ := h
  obtain ⟨i, is, rfl⟩ := List.exists_cons_of_length_pos
    (by rw [hlen]; cases tenMbit <;> decide : 0 < is.length)
  obtain ⟨hon, hcrsdv, hrxd⟩ := hpins i List.mem_cons_self
  have hhigh : ∀ j ∈ is, j.rstN = true ∧ j.ethCrsdv = true := by
    intro j hj
    obtain ⟨hon, hcrsdv, -⟩ := hpins j (List.mem_cons_of_mem _ hj)
    exact ⟨hon, hcrsdv⟩
  have hgap : RxTriple tenMbit (At st' n' sh' (nextSampleGap tenMbit)) is [] (At st' n' sh' 0) := by
    rw [List.length_cons] at hlen
    cases tenMbit with
    | false =>
      obtain rfl : is = [] := by simpa [period] using hlen
      exact Triple.nil _
    | true =>
      have hnine : nextSampleGap true = is.length := (Nat.succ.inj hlen).symm
      rw [hnine]
      exact rx_gap hst hhigh
  rw [← List.append_nil events]
  exact Triple.append (Triple.one fun s hs => hsample s i hs hon hcrsdv hrxd) hgap

theorem sampleNow_of_gap (hs : s.sampleGap = 0) : sampleNow tenMbit s = true := by
  simp [sampleNow, hs]

/-- The first dibit of a frame. -/
theorem rx_first {is : List Pins} (h : Holds tenMbit true d is) :
    RxTriple tenMbit Idle is [] (At .preamble 1 (d ++ (0 : BitVec 6)) 0) := by
  refine rx_dibit (by decide) h fun s i hs hon hcrsdv hrxd => ?_
  rw [kinds, reports, step_idle hon hs, idleStep]
  dsimp only
  rw [if_pos hcrsdv, hrxd]
  exact ⟨⟨rfl, rfl, rfl, rfl, hcrsdv, rfl⟩, rfl⟩

/-- A dibit of the preamble. -/
theorem rx_preamble {is : List Pins} (h : Holds tenMbit true d is)
    (hsfd : nextByte d sh ≠ sfd) :
    RxTriple tenMbit (At .preamble n sh 0) is []
      (At .preamble (if n = 3 then 0 else n + 1) (nextByte d sh) 0) := by
  refine rx_dibit (by decide) h fun s i hs hon hcrsdv hrxd => ?_
  have hstep : step tenMbit s i = { tick s i with
      sampleGap := nextSampleGap tenMbit
      shift := nextByte d sh
      dibitCount := if n = 3 then 0 else n + 1 } := by
    simp [step_preamble hon hs.state, preambleStep, hcrsdv, sampleNow_of_gap hs.gap, hrxd, hs.shift,
      hsfd, hs.count]
  rw [kinds, reports, hstep]
  exact ⟨⟨hs.state, rfl, rfl, rfl, hcrsdv, hs.low⟩, rfl⟩

/-- The last dibit of the start-of-frame delimiter. -/
theorem rx_sfd {is : List Pins} (h : Holds tenMbit true d is) (hsfd : nextByte d sh = sfd) :
    RxTriple tenMbit (At .preamble n sh 0) is [.start] (At .payload 0 sfd 0) := by
  refine rx_dibit (by decide) h fun s i hs hon hcrsdv hrxd => ?_
  rw [kinds, reports, step_preamble hon hs.state, preambleStep]
  dsimp only
  rw [if_neg (by simp [hcrsdv]), if_neg (by simp [sampleNow_of_gap hs.gap]), hrxd, hs.shift,
    if_pos hsfd, hsfd]
  exact ⟨⟨rfl, rfl, rfl, rfl, hcrsdv, rfl⟩, rfl⟩

/-- What a sampled dibit does in the payload. -/
theorem step_sample (hstate : s.state = .payload) (hcount : s.dibitCount = n) (hshift : s.shift = sh)
    (hgap : s.sampleGap = 0) (hlow : s.crsdvLowCount = 0) (hon : i.rstN = true)
    (hdv : (i.ethCrsdv || s.crsdvD1) = true) :
    let next := nextByte i.ethRxd sh
    step tenMbit s i =
      { tick s i with
        sampleGap := nextSampleGap tenMbit
        crsdvLowCount := 0
        shift := next
        dibitCount := if n = 3 then 0 else n + 1
        rxByte := if n = 3 then next else s.rxByte
        rxByteValid := decide (n = 3) } := by
  rw [step_payload hon hstate, payloadStep]
  dsimp only
  rw [hdv, if_neg (by decide), if_neg (by simp [sampleNow_of_gap hgap]), hlow, hcount,
    hshift, ite_self]
  by_cases hn : n = 3
  · simp [hn]
  · simp [hn, tick]

theorem At.step_sample (hs : At .payload n sh 0 s) (hon : i.rstN = true) :
    step tenMbit s i =
      { tick s i with
        sampleGap := nextSampleGap tenMbit
        crsdvLowCount := 0
        shift := nextByte i.ethRxd sh
        dibitCount := if n = 3 then 0 else n + 1
        rxByte := if n = 3 then nextByte i.ethRxd sh else s.rxByte
        rxByteValid := decide (n = 3) } :=
  RmiiRxBytes.step_sample hs.state hs.count hs.shift hs.gap hs.low hon (by simp [hs.carrier])

/-- A dibit of the data. -/
theorem rx_data {is : List Pins} (h : Holds tenMbit true d is) (hn : n < 3) :
    RxTriple tenMbit (At .payload n sh 0) is [] (At .payload (n + 1) (nextByte d sh) 0) := by
  refine rx_dibit (by decide) h fun s i hs hon hcrsdv hrxd => ?_
  have hne : ¬ n = 3 := by omega
  rw [kinds, reports, hs.step_sample hon, hrxd, if_neg hne, if_neg hne, decide_eq_false hne]
  exact ⟨⟨hs.state, rfl, rfl, rfl, hcrsdv, rfl⟩, rfl⟩

/-- The last dibit of a byte. -/
theorem rx_lastData {is : List Pins} (h : Holds tenMbit true d is) :
    RxTriple tenMbit (At .payload 3 sh 0) is [.byte (nextByte d sh)]
      (At .payload 0 (nextByte d sh) 0) := by
  refine rx_dibit (by decide) h fun s i hs hon hcrsdv hrxd => ?_
  rw [kinds, reports, hs.step_sample hon, hrxd]
  exact ⟨⟨hs.state, rfl, rfl, rfl, hcrsdv, rfl⟩, rfl⟩

/-! ## The end of a frame -/

/-- A low clock after the carrier has been lost. -/
theorem step_low (hstate : s.state = .payload) (hd1 : s.crsdvD1 = false) (hon : i.rstN = true)
    (hcrsdv : i.ethCrsdv = false) (hcount : s.crsdvLowCount < 3) :
    step tenMbit s i = { tick s i with crsdvLowCount := s.crsdvLowCount + 1 } := by
  have hne : ¬ s.crsdvLowCount = endGapCycles - 1 := by
    rw [endGapCycles]
    omega
  simp [step_payload hon hstate, payloadStep, hcrsdv, hd1, hne]

theorem step_end (hstate : s.state = .payload) (hd1 : s.crsdvD1 = false) (hon : i.rstN = true)
    (hcrsdv : i.ethCrsdv = false) (hcount : s.crsdvLowCount = 3) :
    step tenMbit s i =
      { tick s i with
        state := .idle
        rxFrameEnd := true
        rxFrameError := s.frameErrorLatch
        dibitCount := 0
        crsdvLowCount := 0 } := by
  simp [step_payload hon hstate, payloadStep, hcrsdv, hd1, hcount, endGapCycles]

/-- In the payload with `k` low clocks behind. -/
def Fading (k : Nat) (s : Regs) : Prop :=
  s.state = .payload ∧ s.crsdvD1 = false ∧ s.crsdvLowCount = k

theorem rx_fading {k : Nat} (hk : k < 3) (hon : i.rstN = true) (hcrsdv : i.ethCrsdv = false) :
    RxTriple tenMbit (Fading k) [i] [] (Fading (k + 1)) := by
  refine Triple.one fun s hs => ?_
  obtain ⟨hstate, hd1, hcount⟩ := hs
  rw [kinds, reports, step_low hstate hd1 hon hcrsdv (by omega)]
  exact ⟨⟨hstate, hcrsdv, congrArg (· + 1) hcount⟩, rfl⟩

/-- **Five low clocks end the frame**, unless they complete a byte. -/
theorem rx_end {is : List Pins} (hn : n < 3) (hlen : is.length = 5)
    (hlow : ∀ i ∈ is, i.rstN = true ∧ i.ethCrsdv = false) :
    RxTriple tenMbit (At .payload n sh 0) is [.stop false] Idle := by
  match is, hlen with
  | [i₁, i₂, i₃, i₄, i₅], _ =>
    simp only [List.mem_cons, List.not_mem_nil, or_false, forall_eq_or_imp, forall_eq] at hlow
    obtain ⟨⟨hon₁, hlow₁⟩, ⟨hon₂, hlow₂⟩, ⟨hon₃, hlow₃⟩, ⟨hon₄, hlow₄⟩, hon₅, hlow₅⟩ := hlow
    -- the clock before still counts as carrier, so the first low clock is sampled
    have hfirst : RxTriple tenMbit (At .payload n sh 0) [i₁] [] (Fading 0) := by
      refine Triple.one fun s hs => ?_
      have hne : ¬ n = 3 := by omega
      rw [kinds, reports, hs.step_sample hon₁, decide_eq_false hne]
      exact ⟨⟨hs.state, hlow₁, rfl⟩, rfl⟩
    have hlast : RxTriple tenMbit (Fading 3) [i₅] [.stop false] Idle := by
      refine Triple.one fun s hs => ?_
      obtain ⟨hstate, hd1, hcount⟩ := hs
      rw [kinds, reports, step_end hstate hd1 hon₅ hlow₅ hcount]
      exact ⟨rfl, rfl⟩
    exact hfirst.append ((rx_fading (by decide) hon₂ hlow₂).append
      ((rx_fading (by decide) hon₃ hlow₃).append
        ((rx_fading (by decide) hon₄ hlow₄).append hlast)))

/-- An idle receiver on an idle line. -/
theorem rx_idle {is : List Pins} (hlow : ∀ i ∈ is, i.rstN = true ∧ i.ethCrsdv = false) :
    RxTriple tenMbit Idle is [] Idle := by
  induction is with
  | nil => exact Triple.nil _
  | cons i is ih =>
    obtain ⟨hon, hcrsdv⟩ := hlow i List.mem_cons_self
    refine Triple.append (Triple.one fun s hs => ?_ : RxTriple tenMbit _ [i] [] _)
      (ih fun j hj => hlow j (List.mem_cons_of_mem _ hj))
    have hstep : step tenMbit s i = { tick s i with
        dibitCount := 0
        shift := 0
        frameErrorLatch := false
        crsdvLowCount := 0
        sampleGap := 0 } := by
      rw [step_idle hon hs, idleStep]
      simp [hcrsdv]
    rw [kinds, reports, hstep]
    exact ⟨hs, rfl⟩

/-- A line that stays low for at least five clocks. -/
theorem rx_tail {is : List Pins} (hn : n < 3) (hlen : 5 ≤ is.length)
    (hlow : ∀ i ∈ is, i.rstN = true ∧ i.ethCrsdv = false) :
    RxTriple tenMbit (At .payload n sh 0) is [.stop false] Idle := by
  rw [← List.take_append_drop 5 is, ← List.append_nil [Event.stop false]]
  refine (rx_end hn ?_ fun i hi => hlow i (List.mem_of_mem_take hi)).append
    (rx_idle fun i hi => hlow i (List.mem_of_mem_drop hi))
  rw [List.length_take]
  omega

end Dibits

/-! ## Frames -/

/-- A dibit of a byte, the least significant one first. -/
def dibit (b : Byte) (k : Nat) : Dibit := b.extractLsb' (2 * k) 2

/-- The preamble and the start-of-frame delimiter. -/
def preambleDibits : List Dibit := List.replicate 31 1 ++ [3]

/-- The pins carry the dibits, each with the given value of CRS_DV. -/
def Carries (tenMbit : Bool) : List (Bool × Dibit) → List Pins → Prop
  | [], is => is = []
  | x :: xs, is => ∃ first rest, is = first ++ rest ∧ Holds tenMbit x.1 x.2 first ∧
      Carries tenMbit xs rest

section Frames

variable {tenMbit : Bool} {sh : Byte}

theorem carries_append {xs ys : List (Bool × Dibit)} {is : List Pins}
    (h : Carries tenMbit (xs ++ ys) is) :
    ∃ front back, is = front ++ back ∧ Carries tenMbit xs front ∧ Carries tenMbit ys back := by
  induction xs generalizing is with
  | nil => exact ⟨[], is, rfl, rfl, h⟩
  | cons x xs ih =>
    obtain ⟨first, rest, rfl, hfirst, hrest⟩ := h
    obtain ⟨front, back, rfl, hfront, hback⟩ := ih hrest
    exact ⟨first ++ front, back, (List.append_assoc _ _ _).symm, ⟨first, front, rfl, hfirst, hfront⟩,
      hback⟩

theorem nextByte_getLsbD (d : Dibit) (sh : Byte) (i : Nat) :
    (nextByte d sh).getLsbD i = if i < 6 then sh.getLsbD (i + 2) else d.getLsbD (i - 6) := by
  rw [nextByte, BitVec.getLsbD_append]
  split
  next h => rw [BitVec.getLsbD_extractLsb', decide_eq_true h, Bool.true_and, Nat.add_comm]
  · rfl

theorem dibit_getLsbD (b : Byte) (k : Nat) {i : Nat} (hi : i < 2) :
    (dibit b k).getLsbD i = b.getLsbD (2 * k + i) := by
  rw [dibit, BitVec.getLsbD_extractLsb', decide_eq_true hi, Bool.true_and]

/-- Four dibits replace the whole register. -/
theorem nextByte_dibits (b sh : Byte) :
    nextByte (dibit b 3) (nextByte (dibit b 2) (nextByte (dibit b 1) (nextByte (dibit b 0) sh))) =
      b := by
  apply BitVec.eq_of_getLsbD_eq
  intro i hi
  interval_cases i <;>
    simp (disch := decide) only [nextByte_getLsbD, dibit_getLsbD, Nat.reduceAdd, Nat.reduceSub,
      Nat.reduceMul, Nat.reduceLT, if_true, if_false]

/-- The register while the preamble comes in. -/
def preambleShift : Nat → Byte
  | 0 => 0
  | k + 1 => nextByte 1 (preambleShift k)

theorem preambleShift_eq {k : Nat} (hk : 4 ≤ k) : preambleShift k = 0x55 := by
  induction k, hk using Nat.le_induction with
  | base => decide
  | succ k _ ih => rw [preambleShift, ih]; decide

/-- A dibit `01` does not complete the delimiter. -/
theorem nextByte_one_ne (sh : Byte) : nextByte 1 sh ≠ sfd := by
  intro h
  have hbit : (nextByte 1 sh).getLsbD 7 = sfd.getLsbD 7 := by rw [h]
  rw [nextByte_getLsbD, if_neg (by decide)] at hbit
  exact absurd hbit (by decide)

/-- The preamble up to its last dibit. -/
theorem rx_preambleDibits (k : Nat) {is : List Pins}
    (h : Carries tenMbit (List.replicate (k + 1) (true, 1)) is) :
    RxTriple tenMbit Idle is [] fun s => ∃ n, At .preamble n (preambleShift (k + 1)) 0 s := by
  induction k generalizing is with
  | zero =>
    obtain ⟨first, rest, rfl, hfirst, rfl⟩ := h
    rw [List.append_nil]
    exact (rx_first hfirst).weaken (fun _ hs => hs) fun _ hs => ⟨1, hs⟩
  | succ k ih =>
    rw [List.replicate_succ'] at h
    obtain ⟨front, back, rfl, hfront, first, rest, rfl, hfirst, rfl⟩ := carries_append h
    rw [List.append_nil]
    refine ((ih hfront).append ?_ : RxTriple tenMbit _ (front ++ first) ([] ++ []) _)
    rintro s ⟨n, hs⟩
    obtain ⟨hs', hnone⟩ := rx_preamble hfirst (nextByte_one_ne _) s hs
    exact ⟨⟨_, hs'⟩, hnone⟩

/-- **The preamble starts a frame.** -/
theorem rx_start {is : List Pins} (h : Carries tenMbit (preambleDibits.map (true, ·)) is) :
    RxTriple tenMbit Idle is [.start] (At .payload 0 sfd 0) := by
  rw [preambleDibits, List.map_append, List.map_replicate] at h
  obtain ⟨front, back, rfl, hfront, first, rest, rfl, hfirst, rfl⟩ := carries_append h
  rw [List.append_nil]
  refine ((rx_preambleDibits 30 hfront).append ?_ :
    RxTriple tenMbit _ (front ++ first) ([] ++ [.start]) _)
  rintro s ⟨n, hs⟩
  have hsfd : nextByte 3 (preambleShift (30 + 1)) = sfd := by
    rw [preambleShift_eq (by decide)]
    decide
  exact rx_sfd hfirst hsfd s hs

/-! ## CRS_DV during the data -/

/-- A low clock and a high one at 100 Mb/s: the first dibit is sampled because of the clock
before, the second one because of its own. -/
theorem rx_toggle {n : Nat} {d d' : Dibit} {is : List Pins} (hn : n = 0 ∨ n = 2)
    (h : Carries false [(false, d), (true, d')] is) :
    RxTriple false (At .payload n sh 0) is
      (if n = 2 then [.byte (nextByte d' (nextByte d sh))] else [])
      (At .payload (if n = 2 then 0 else 2) (nextByte d' (nextByte d sh)) 0) := by
  obtain ⟨is₀, _, rfl, ⟨hlen₀, h₀⟩, is₁, _, rfl, ⟨hlen₁, h₁⟩, rfl⟩ := h
  obtain ⟨i₀, rfl⟩ := List.length_eq_one_iff.mp hlen₀
  obtain ⟨i₁, rfl⟩ := List.length_eq_one_iff.mp hlen₁
  obtain ⟨hon₀, hlow₀, hrxd₀⟩ := h₀ i₀ List.mem_cons_self
  obtain ⟨hon₁, hhigh₁, hrxd₁⟩ := h₁ i₁ List.mem_cons_self
  intro s hs
  have hne : ¬ n = 3 := by omega
  have hfirst : step false s i₀ = _ := hs.step_sample hon₀
  rw [hrxd₀, if_neg hne, if_neg hne, decide_eq_false hne] at hfirst
  have hstate : (step false s i₀).state = .payload := by
    rw [hfirst]
    exact hs.state
  have hcount : (step false s i₀).dibitCount = n + 1 := by rw [hfirst]
  have hshift : (step false s i₀).shift = nextByte d sh := by rw [hfirst]
  have hgap : (step false s i₀).sampleGap = 0 := by
    rw [hfirst]
    rfl
  have hlow : (step false s i₀).crsdvLowCount = 0 := by rw [hfirst]
  have hsecond : step false (step false s i₀) i₁ = _ :=
    step_sample hstate hcount hshift hgap hlow hon₁ (by rw [hhigh₁]; rfl)
  rw [List.append_nil]
  simp only [List.singleton_append, run_cons, run_nil, trace_cons, trace_nil, kinds, reports]
  rw [hsecond, hrxd₁]
  have hquiet : (step false s i₀).events = [] := by
    rw [hfirst]
    rfl
  rw [hquiet]
  rcases hn with rfl | rfl
  · exact ⟨⟨hstate, rfl, rfl, rfl, hhigh₁, rfl⟩, rfl⟩
  · exact ⟨⟨hstate, rfl, rfl, rfl, hhigh₁, rfl⟩, rfl⟩

/-- A nibble with or without a low first dibit. -/
theorem rx_nibble {n : Nat} {d d' : Dibit} {low : Bool} {is : List Pins} (hn : n = 0 ∨ n = 2)
    (hok : tenMbit = false ∨ low = false) (h : Carries tenMbit [(!low, d), (true, d')] is) :
    RxTriple tenMbit (At .payload n sh 0) is
      (if n = 2 then [.byte (nextByte d' (nextByte d sh))] else [])
      (At .payload (if n = 2 then 0 else 2) (nextByte d' (nextByte d sh)) 0) := by
  cases low with
  | true =>
    obtain rfl : tenMbit = false := hok.resolve_right (by decide)
    exact rx_toggle hn h
  | false =>
    obtain ⟨is₀, _, rfl, h₀, is₁, _, rfl, h₁, rfl⟩ := h
    rw [List.append_nil]
    rcases hn with rfl | rfl
    · exact (rx_data h₀ (by decide)).append (rx_data h₁ (by decide))
    · exact (rx_data h₀ (by decide)).append (rx_lastData h₁)

/-- The dibits of a byte. CRS_DV is low on the first dibit of the low or of the high nibble if
the flag says so. -/
def dataDibits (x : Byte × Bool × Bool) : List (Bool × Dibit) :=
  [(!x.2.1, dibit x.1 0), (true, dibit x.1 1), (!x.2.2, dibit x.1 2), (true, dibit x.1 3)]

/-- The dibits of a frame, with CRS_DV. -/
def frameDibits (data : List (Byte × Bool × Bool)) : List (Bool × Dibit) :=
  preambleDibits.map (true, ·) ++ data.flatMap dataDibits

/-- What is expected of a frame. -/
def frameKinds (data : List (Byte × Bool × Bool)) : List Event :=
  .start :: data.map fun x => .byte x.1

/-- CRS_DV may toggle: an idle receiver reports the start and the bytes of the frame while the
frame lasts, and its end when the line has been low for a while. -/
def CrsDvTolerant (tenMbit : Bool) (data : List (Byte × Bool × Bool)) : Prop :=
  ∀ s is tail, Idle s → Carries tenMbit (frameDibits data) is →
    (∀ i ∈ tail, i.rstN = true ∧ i.ethCrsdv = false) →
    trace (step tenMbit) (kinds tenMbit) s is = frameKinds data ∧
      (5 ≤ tail.length →
        trace (step tenMbit) (kinds tenMbit) s (is ++ tail) = frameKinds data ++ [.stop false])

/-- CRS_DV is high throughout the byte. -/
def Steady (x : Byte × Bool × Bool) : Prop := x.2.1 = false ∧ x.2.2 = false

theorem rx_dataDibits {x : Byte × Bool × Bool} {is : List Pins}
    (hok : tenMbit = false ∨ Steady x) (h : Carries tenMbit (dataDibits x) is) :
    RxTriple tenMbit (At .payload 0 sh 0) is [.byte x.1] (At .payload 0 x.1 0) := by
  have hsplit : dataDibits x = [(!x.2.1, dibit x.1 0), (true, dibit x.1 1)] ++
      [(!x.2.2, dibit x.1 2), (true, dibit x.1 3)] := rfl
  rw [hsplit] at h
  obtain ⟨front, back, rfl, hfront, hback⟩ := carries_append h
  have hlow : RxTriple tenMbit (At .payload 0 sh 0) front [] _ :=
    rx_nibble (.inl rfl) (hok.imp_right And.left) hfront
  have hhigh : RxTriple tenMbit (At .payload 2 (nextByte (dibit x.1 1) (nextByte (dibit x.1 0) sh)) 0)
      back _ _ := rx_nibble (.inr rfl) (hok.imp_right And.right) hback
  rw [if_pos rfl, if_pos rfl, nextByte_dibits] at hhigh
  exact hlow.append hhigh

theorem rx_allData {data : List (Byte × Bool × Bool)} {is : List Pins}
    (hok : tenMbit = false ∨ ∀ x ∈ data, Steady x)
    (h : Carries tenMbit (data.flatMap dataDibits) is) :
    RxTriple tenMbit (At .payload 0 sh 0) is (data.map fun x => .byte x.1)
      (fun s => ∃ sh', At .payload 0 sh' 0 s) := by
  induction data generalizing sh is with
  | nil =>
    obtain rfl : is = [] := h
    exact (Triple.nil _).weaken (fun _ hs => hs) fun _ hs => ⟨sh, hs⟩
  | cons x data ih =>
    rw [List.flatMap_cons] at h
    obtain ⟨front, back, rfl, hfront, hback⟩ := carries_append h
    have hx : tenMbit = false ∨ Steady x := hok.imp_right fun h => h x List.mem_cons_self
    have hdata : tenMbit = false ∨ ∀ y ∈ data, Steady y :=
      hok.imp_right fun h y hy => h y (List.mem_cons_of_mem _ hy)
    exact (rx_dataDibits hx hfront).append (ih hdata hback)

/-- Pins that carry the dibits. -/
def carry (tenMbit : Bool) (xs : List (Bool × Dibit)) : List Pins :=
  xs.flatMap fun x => List.replicate (period tenMbit) ⟨true, x.1, false, x.2⟩

theorem carries_carry (tenMbit : Bool) (xs : List (Bool × Dibit)) :
    Carries tenMbit xs (carry tenMbit xs) := by
  induction xs with
  | nil => rfl
  | cons x xs ih =>
    refine ⟨_, _, rfl, ⟨List.length_replicate, fun i hi => ?_⟩, ih⟩
    rw [List.eq_of_mem_replicate hi]
    exact ⟨rfl, rfl, rfl⟩

/-- A low dibit at 10 Mb/s ends the frame. -/
theorem rx_lowDibit {n : Nat} {d : Dibit} {xs : List (Bool × Dibit)} {is : List Pins} {s : Regs}
    (hn : n < 3) (h : Carries true ((false, d) :: xs) is) (hs : At .payload n sh 0 s) :
    Event.stop false ∈ trace (step true) (kinds true) s is := by
  obtain ⟨first, rest, rfl, ⟨hlen, hpins⟩, -⟩ := h
  have hfive : RxTriple true (At .payload n sh 0) (first.take 5) [.stop false] Idle := by
    refine rx_end hn (by rw [List.length_take, hlen]; rfl) fun i hi => ?_
    obtain ⟨hon, hlow, -⟩ := hpins i (List.mem_of_mem_take hi)
    exact ⟨hon, hlow⟩
  rw [← List.take_append_drop 5 first, List.append_assoc, trace_append, (hfive s hs).2]
  exact List.mem_append_left _ List.mem_cons_self

/-- A byte that is not steady ends the frame at 10 Mb/s. -/
theorem rx_unsteady {x : Byte × Bool × Bool} {xs : List (Bool × Dibit)} {is : List Pins} {s : Regs}
    (hx : ¬ Steady x) (h : Carries true (dataDibits x ++ xs) is) (hs : At .payload 0 sh 0 s) :
    Event.stop false ∈ trace (step true) (kinds true) s is := by
  obtain ⟨b, low, high⟩ := x
  cases low with
  | true => exact rx_lowDibit (by decide) h hs
  | false =>
    have hhigh : high = true := by
      by_contra hne
      exact hx ⟨rfl, by simpa using hne⟩
    subst hhigh
    have hsplit : dataDibits (b, false, true) ++ xs = [(!false, dibit b 0), (true, dibit b 1)] ++
        ((false, dibit b 2) :: (true, dibit b 3) :: xs) := rfl
    rw [hsplit] at h
    obtain ⟨front, back, rfl, hfront, hback⟩ := carries_append h
    have hnibble : RxTriple true (At .payload 0 sh 0) front [] _ :=
      rx_nibble (.inl rfl) (.inr rfl) hfront
    obtain ⟨hs', hnone⟩ := hnibble s hs
    rw [trace_append, hnone]
    exact rx_lowDibit (by decide) hback hs'

theorem exists_first_unsteady {data : List (Byte × Bool × Bool)} (h : ¬ ∀ x ∈ data, Steady x) :
    ∃ pre x post, data = pre ++ x :: post ∧ (∀ y ∈ pre, Steady y) ∧ ¬ Steady x := by
  induction data with
  | nil => simp at h
  | cons y data ih =>
    by_cases hy : Steady y
    · have hdata : ¬ ∀ x ∈ data, Steady x := fun hall => h (List.forall_mem_cons.mpr ⟨hy, hall⟩)
      obtain ⟨pre, x, post, rfl, hpre, hx⟩ := ih hdata
      exact ⟨y :: pre, x, post, rfl, List.forall_mem_cons.mpr ⟨hy, hpre⟩, hx⟩
    · exact ⟨[], y, data, rfl, by simp, hy⟩

/-- **CRS_DV may toggle if and only if** the speed is 100 Mb/s, or it does not toggle. -/
theorem crsDvTolerant_iff (tenMbit : Bool) (data : List (Byte × Bool × Bool)) :
    CrsDvTolerant tenMbit data ↔ tenMbit = false ∨ ∀ x ∈ data, Steady x := by
  constructor
  · intro h
    by_contra hcon
    obtain ⟨hten, hunsteady⟩ := not_or.mp hcon
    obtain rfl : tenMbit = true := by simpa using hten
    -- up to the first byte with a low dibit everything is received
    obtain ⟨pre, x, post, rfl, hpre, hx⟩ := exists_first_unsteady hunsteady
    have hcarry := carries_carry true (frameDibits (pre ++ x :: post))
    obtain ⟨htrace, -⟩ := h .reset _ [] rfl hcarry (by simp)
    have hdibits : frameDibits (pre ++ x :: post) = preambleDibits.map (true, ·) ++
        (pre.flatMap dataDibits ++ (dataDibits x ++ post.flatMap dataDibits)) := by
      simp [frameDibits]
    rw [hdibits] at hcarry
    obtain ⟨is₀, rest, heq, h₀, hrest⟩ := carries_append hcarry
    obtain ⟨is₁, is₂, rfl, h₁, h₂⟩ := carries_append hrest
    obtain ⟨hs₁, -⟩ := rx_start h₀ .reset rfl
    obtain ⟨⟨sh, hs₂⟩, -⟩ := rx_allData (.inr hpre) h₁ _ hs₁
    have hstop := rx_unsteady hx h₂ hs₂
    have hmem : Event.stop false ∈ frameKinds (pre ++ x :: post) := by
      rw [← htrace, hdibits, heq, trace_append, trace_append]
      exact List.mem_append_right _ (List.mem_append_right _ hstop)
    simp [frameKinds] at hmem
  · intro hok s is tail hs h hlow
    obtain ⟨is₀, is₁, rfl, h₀, h₁⟩ := carries_append h
    have hframe : RxTriple tenMbit Idle (is₀ ++ is₁) (frameKinds data) _ :=
      (rx_start h₀).append (rx_allData hok h₁)
    obtain ⟨⟨sh, hs'⟩, htrace⟩ := hframe s hs
    refine ⟨htrace, fun hlen => ?_⟩
    rw [trace_append, htrace, (rx_tail (by decide) hlen hlow _ hs').2]

/-- At 10 Mb/s a frame whose only byte has a low dibit is cut. -/
theorem crsDv_ends_frame : ¬ CrsDvTolerant true [(0x22, true, false)] := by
  intro h
  obtain ⟨htrace, -⟩ := h .reset _ [] rfl (carries_carry true _) (by simp)
  revert htrace
  decide +kernel

end Frames

end FpgaHashJoin.RmiiRxBytes
