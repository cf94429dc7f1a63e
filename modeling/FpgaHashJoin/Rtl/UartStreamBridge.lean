import FpgaHashJoin.Clocked

/-!
# The UART bridge

`uart_stream_bridge.v`: a receiver behind a two-stage synchroniser, a one-byte stage that
offers received bytes on an AXI stream, and a transmitter. The four clocked blocks share no
registers apart from the byte that the receiver passes on, so each is a definition of its own
and `step` puts them together. All assignments of a cycle read the registers as they were
before it.

A counter that is only decremented when it is not zero does not wrap; what it is loaded with
is cut to 16 bits. The parameter `cpb` is `CLK_FREQ / BAUD_RATE`.

The comment above the output stage says that a byte which arrives while another one is held
is dropped. The code replaces the held byte instead. `streamContract_iff` says when the
announced behaviour is nevertheless what happens.
-/

namespace FpgaHashJoin.UartStreamBridge

open Clocked

abbrev Byte := BitVec 8

/-- The input pins. -/
structure Pins where
  rstN : Bool
  uartRx : Bool
  mAxisTready : Bool
  sAxisTdata : Byte
  sAxisTvalid : Bool
  deriving DecidableEq

/-- The states of the receiver and of the transmitter. -/
inductive St where
  | idle
  | start
  | data
  | stop
  deriving DecidableEq, Repr

/-- `n - 1` as it is loaded into a 16-bit counter. -/
def load16 (n : Nat) : Nat := (n + (2 ^ 16 - 1)) % 2 ^ 16

/-! ## The receiver -/

/-- The registers of the receiver, without the synchroniser. -/
structure Rx where
  rs : St
  rc : Nat
  rb : Nat
  rsh : Byte
  rdone : Bool
  rbyte : Byte
  deriving DecidableEq

def Rx.reset : Rx := ⟨.idle, 0, 0, 0, false, 0⟩

/-- Shift a sampled bit in from the left. -/
def shiftIn (x : Bool) (sh : Byte) : Byte := BitVec.cons x (sh.extractLsb' 1 7)

/-- One cycle of the receiver; `s2` is the output of the synchroniser. -/
def Rx.step (cpb : Nat) (r : Rx) (s2 : Bool) : Rx :=
  let r := { r with rdone := false }
  match r.rs with
  | .idle => if !s2 then { r with rs := .start, rc := load16 (cpb / 2) } else r
  | .start =>
    if r.rc = 0 then
      if !s2 then { r with rs := .data, rc := load16 cpb, rb := 0 } else { r with rs := .idle }
    else { r with rc := r.rc - 1 }
  | .data =>
    if r.rc = 0 then
      let r := { r with rsh := shiftIn s2 r.rsh, rc := load16 cpb }
      if r.rb = 7 then { r with rs := .stop } else { r with rb := r.rb + 1 }
    else { r with rc := r.rc - 1 }
  | .stop =>
    if r.rc = 0 then
      let r := { r with rs := .idle }
      if s2 then { r with rdone := true, rbyte := r.rsh } else r
    else { r with rc := r.rc - 1 }

/-! ## The output stage -/

/-- The stream output. -/
structure Out where
  mAxisTdata : Byte
  mAxisTvalid : Bool
  deriving DecidableEq

def Out.reset : Out := ⟨0, false⟩

def Out.step (o : Out) (rdone : Bool) (rbyte : Byte) (mAxisTready : Bool) : Out :=
  if o.mAxisTvalid && mAxisTready then ⟨rbyte, rdone⟩
  else if rdone then ⟨rbyte, true⟩
  else o

/-! ## The transmitter -/

structure Tx where
  ts : St
  tc : Nat
  tb : Nat
  tsh : Byte
  tpin : Bool
  deriving DecidableEq

def Tx.reset : Tx := ⟨.idle, 0, 0, 0, true⟩

def Tx.sAxisTready (t : Tx) : Bool := t.ts = .idle

/-- One cycle of the transmitter. -/
def Tx.step (cpb : Nat) (t : Tx) (sAxisTvalid : Bool) (sAxisTdata : Byte) : Tx :=
  match t.ts with
  | .idle =>
    if sAxisTvalid then { t with tsh := sAxisTdata, tc := load16 cpb, tpin := false, ts := .start }
    else t
  | .start =>
    if t.tc = 0 then
      { t with tpin := t.tsh.getLsbD 0, tsh := t.tsh >>> 1, tb := 0, tc := load16 cpb, ts := .data }
    else { t with tc := t.tc - 1 }
  | .data =>
    if t.tc = 0 then
      let t := { t with tc := load16 cpb }
      if t.tb = 7 then { t with tpin := true, ts := .stop }
      else { t with tb := t.tb + 1, tpin := t.tsh.getLsbD 0, tsh := t.tsh >>> 1 }
    else { t with tc := t.tc - 1 }
  | .stop => if t.tc = 0 then { t with ts := .idle } else { t with tc := t.tc - 1 }

/-! ## The bridge -/

structure Regs where
  rxS1 : Bool
  rxS2 : Bool
  rx : Rx
  out : Out
  tx : Tx
  deriving DecidableEq

def uartTx (s : Regs) : Bool := s.tx.tpin

/-- One cycle of the bridge. The synchroniser has no reset. -/
def step (cpb : Nat) (s : Regs) (i : Pins) : Regs where
  rxS1 := i.uartRx
  rxS2 := s.rxS1
  rx := if !i.rstN then .reset else s.rx.step cpb s.rxS2
  out := if !i.rstN then .reset else s.out.step s.rx.rdone s.rx.rbyte i.mAxisTready
  tx := if !i.rstN then .reset else s.tx.step cpb i.sAxisTvalid i.sAxisTdata

/-- The byte that the consumer takes in a cycle. -/
def acceptedM (s : Regs) (i : Pins) : List Byte :=
  if s.out.mAxisTvalid && i.mAxisTready then [s.out.mAxisTdata] else []

/-- The byte that the transmitter takes in a cycle. -/
def acceptedS (s : Regs) (i : Pins) : List Byte :=
  if s.tx.sAxisTready && i.sAxisTvalid then [i.sAxisTdata] else []

/-- The byte that the receiver passes on in a cycle. -/
def received (s : Regs) (_ : Pins) : List Byte := if s.rx.rdone then [s.rx.rbyte] else []

/-- The byte on offer. -/
def Out.offered (o : Out) : List Byte := if o.mAxisTvalid then [o.mAxisTdata] else []

@[simp] theorem step_out {cpb : Nat} {s : Regs} {i : Pins} (h : i.rstN = true) :
    (step cpb s i).out = s.out.step s.rx.rdone s.rx.rbyte i.mAxisTready := by
  simp [step, h]

/-! ## The stream contract -/

/-- A byte that the stream begins to show with this cycle: the stage was empty, or its byte
has been taken, or the byte on the stream changes. -/
def presented (cpb : Nat) (s : Regs) (i : Pins) : List Byte :=
  let o := (step cpb s i).out
  if o.mAxisTvalid && (!s.out.mAxisTvalid || i.mAxisTready || o.mAxisTdata != s.out.mAxisTdata)
  then [o.mAxisTdata] else []

/-- The announced behaviour of the output stage along a run: a byte that is offered stays
until it is taken; the bytes taken are among the bytes received, in order, and every byte
that is ever shown has been taken or is still shown. -/
structure StreamContract (cpb : Nat) (s : Regs) (cycles : List Pins) : Prop where
  stable : ∀ pre i, pre ++ [i] <+: cycles → (run (step cpb) s pre).out.mAxisTvalid = true →
    i.mAxisTready = false → (step cpb (run (step cpb) s pre) i).out = (run (step cpb) s pre).out
  among : List.Sublist (trace (step cpb) acceptedM s cycles) (trace (step cpb) received s cycles)
  complete : trace (step cpb) (presented cpb) s cycles =
    trace (step cpb) acceptedM s cycles ++ (run (step cpb) s cycles).out.offered

/-- In this cycle the receiver has another byte for a stage that holds one. -/
def Overwrites (s : Regs) (i : Pins) : Prop :=
  s.out.mAxisTvalid = true ∧ i.mAxisTready = false ∧ s.rx.rdone = true ∧
    s.rx.rbyte ≠ s.out.mAxisTdata

instance (s : Regs) (i : Pins) : Decidable (Overwrites s i) :=
  inferInstanceAs (Decidable (_ ∧ _ ∧ _ ∧ _))

section Cycle

variable {cpb : Nat} {s : Regs} {i : Pins}

/-- The byte on offer stays if and only if it is not overwritten. -/
theorem step_out_eq (hon : i.rstN = true) (hvalid : s.out.mAxisTvalid = true)
    (hready : i.mAxisTready = false) :
    (step cpb s i).out = s.out ↔ ¬ Overwrites s i := by
  rw [step_out hon, Out.step, hvalid, hready, if_neg (by decide)]
  unfold Overwrites
  by_cases hdone : s.rx.rdone = true
  · rw [if_pos hdone]
    have hdata : (⟨s.rx.rbyte, true⟩ : Out) = s.out ↔ s.rx.rbyte = s.out.mAxisTdata := by
      constructor
      · intro h
        rw [← h]
      · intro h
        rw [h, ← hvalid]
    simp [hdata, hvalid, hready, hdone]
  · simp [hdone]

/-- What has been taken and what is on offer was received before. -/
theorem offered_among {taken got : List Byte} (hon : i.rstN = true)
    (h : List.Sublist (taken ++ s.out.offered) got) :
    List.Sublist (taken ++ acceptedM s i ++ (step cpb s i).out.offered) (got ++ received s i) := by
  have htaken : List.Sublist taken got := (List.sublist_append_left _ _).trans h
  rw [step_out hon, Out.step]
  unfold acceptedM received
  by_cases hfire : (s.out.mAxisTvalid && i.mAxisTready) = true
  · have hvalid : s.out.mAxisTvalid = true := (Bool.and_eq_true_iff.mp hfire).1
    rw [Out.offered, if_pos hvalid] at h
    rw [if_pos hfire, if_pos hfire]
    exact h.append (List.Sublist.refl _)
  · rw [if_neg hfire, if_neg hfire, List.append_nil]
    by_cases hdone : s.rx.rdone = true
    · -- the held byte, if there is one, is lost here
      rw [if_pos hdone, if_pos hdone]
      exact htaken.append (List.Sublist.refl _)
    · rw [if_neg hdone, if_neg hdone, List.append_nil]
      exact h

/-- What has been shown is what has been taken and what is on offer. -/
theorem presented_step {shown taken : List Byte} (hon : i.rstN = true)
    (hkeep : ¬ Overwrites s i) (h : shown = taken ++ s.out.offered) :
    shown ++ presented cpb s i = taken ++ acceptedM s i ++ (step cpb s i).out.offered := by
  subst h
  unfold presented acceptedM
  by_cases hvalid : s.out.mAxisTvalid = true
  · by_cases hready : i.mAxisTready = true
    · simp [Out.offered, Out.step, hon, hvalid, hready]
    · have hready : i.mAxisTready = false := by simpa using hready
      rw [(step_out_eq hon hvalid hready).mpr hkeep]
      simp [hvalid, hready]
  · simp [Out.offered, hvalid]

end Cycle

variable {cpb : Nat}

theorem offered_reset {s₀ : Regs} {i₀ : Pins} (hreset : i₀.rstN = false) :
    (step cpb s₀ i₀).out.offered = [] := by
  simp [step, hreset, Out.offered, Out.reset]

/-- **The output stage behaves as announced along a run if and only if** no byte arrives, with
another value, in a cycle in which the stage holds a byte that is not taken. -/
theorem streamContract_iff {s₀ : Regs} {i₀ : Pins} (hreset : i₀.rstN = false)
    {cycles : List Pins} (hon : ∀ i ∈ cycles, i.rstN = true) :
    StreamContract cpb (step cpb s₀ i₀) cycles ↔
      ∀ pre i, pre ++ [i] <+: cycles →
        ¬ Overwrites (run (step cpb) (step cpb s₀ i₀) pre) i := by
  generalize hs : step cpb s₀ i₀ = s
  have hempty : s.out.offered = [] := hs ▸ offered_reset hreset
  have hlast : ∀ pre i, pre ++ [i] <+: cycles → i.rstN = true := fun pre i h =>
    hon i (h.subset (by simp))
  constructor
  · intro h pre i hpre hover
    exact (step_out_eq (hlast pre i hpre) hover.1 hover.2.1).mp
      (h.stable pre i hpre hover.1 hover.2.1) hover
  · intro h
    refine ⟨fun pre i hpre hvalid hready => ?_, ?_, ?_⟩
    · exact (step_out_eq (hlast pre i hpre) hvalid hready).mpr (h pre i hpre)
    · have hall : List.Sublist (trace (step cpb) acceptedM s cycles ++
          (run (step cpb) s cycles).out.offered) (trace (step cpb) received s cycles) := by
        refine history_induction (fun is => List.Sublist (trace (step cpb) acceptedM s is ++
          (run (step cpb) s is).out.offered) (trace (step cpb) received s is)) ?_ ?_ hon
        · simp [hempty]
        · intro is i _ hi ih
          rw [trace_snoc, trace_snoc, run_snoc]
          exact offered_among hi ih
      exact (List.sublist_append_left _ _).trans hall
    · clear hlast
      induction cycles using List.reverseRecOn with
      | nil => simp [hempty]
      | append_singleton is i ih =>
        rw [trace_snoc, trace_snoc, run_snoc]
        refine presented_step (hon i (by simp)) (h is i (List.prefix_refl _)) (ih ?_ ?_)
        · exact fun j hj => hon j (by simp [hj])
        · exact fun pre j hpre => h pre j (hpre.trans (List.prefix_append _ _))

/-! ## Frames on the line -/

/-- The bits of a byte as they are sent. -/
def dataBits (b : Byte) : List Bool := (List.range 8).map b.getLsbD

/-- The start bit, the data bits and the stop bit, each for `cpb` cycles. -/
def frame (cpb : Nat) (b : Byte) : List Bool :=
  (false :: (dataBits b ++ [true])).flatMap (List.replicate cpb)

/-- Cycles with the given values on the line and a consumer that takes nothing. -/
def stalled (line : List Bool) : List Pins := line.map fun x => ⟨true, x, false, 0, false⟩

/-- Two different bytes for a consumer that takes nothing: the first one is lost. -/
def twoBytes : List Bool := frame 2 1 ++ true :: frame 2 2 ++ List.replicate 4 true

theorem held_byte_overwritten :
    ¬ StreamContract 2 (step 2 ⟨true, true, .reset, .reset, .reset⟩ ⟨false, true, false, 0, false⟩)
      (stalled twoBytes) := by
  intro h
  have hpre : (stalled twoBytes).take 43 ++ [(⟨true, true, false, 0, false⟩ : Pins)] <+:
      stalled twoBytes := by decide +kernel
  have hstable := h.stable _ _ hpre (by decide +kernel) rfl
  revert hstable
  decide +kernel

/-- The same two bytes for a consumer that takes the first one just before the second one is
complete. -/
def takenInTime : List Pins :=
  twoBytes.zipIdx.map fun x => ⟨true, x.1, x.2 == 42, 0, false⟩

/-- The first byte stays on the stream for twenty cycles, until it is taken. -/
theorem streamContract_iff_takenInTime :
    let s := step 2 ⟨true, true, .reset, .reset, .reset⟩ ⟨false, true, false, 0, false⟩
    (∀ n < 20, (run (step 2) s (takenInTime.take (23 + n))).out = ⟨1, true⟩) ∧
      StreamContract 2 s takenInTime := by
  intro s
  refine ⟨by decide +kernel, (streamContract_iff rfl (by decide +kernel)).mpr fun pre i hpre => ?_⟩
  have hall : ∀ q ∈ takenInTime.inits, ∀ i ∈ q.getLast?,
      ¬ Overwrites (run (step 2) s q.dropLast) i := by
    decide +kernel
  have hlast := hall (pre ++ [i]) ((List.mem_inits _ _).mpr hpre) i (by simp)
  rwa [List.dropLast_concat] at hlast

end FpgaHashJoin.UartStreamBridge
