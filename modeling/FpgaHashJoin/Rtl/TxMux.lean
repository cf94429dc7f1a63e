import FpgaHashJoin.Rtl.TxFrame

/-!
# The transmit multiplexer

`rmii_udp_stream_bridge.v`: the UDP framer is fed by the kernel and by a diagnostic echo, which
reports the progress of the receive filter in a packet of its own (`udp_rx_diag_echo`). The
selection is combinational, with the echo first, until a byte has been accepted; then it is kept
in a register to the end of the packet.

The history of a run has the bytes that the sources and the framer have handed over or accepted;
the ready line of the framer is an input. `packets_atomic` says that the framer gets whole packets
of one source, and that it gets all of them.
-/

namespace FpgaHashJoin.RmiiUdpStreamBridge

open Clocked PacketStream

/-! ## The diagnostic echo -/

inductive EchoSt where
  | idle
  | send
  deriving DecidableEq, Repr

/-- The registers of `udp_rx_diag_echo`. -/
structure EchoRegs where
  state : EchoSt
  pendingStageBits : BitVec 4
  sendStageBits : BitVec 4
  sendIndex : BitVec 4
  stageDiagSent : Bool
  mPayloadTdata : UInt8
  mPayloadTvalid : Bool
  mPayloadTlast : Bool

/-- The stages of the receive filter in a cycle. -/
structure Stages where
  udpHeader : Bool
  udpPort : Bool
  udpLength : Bool
  udpAccept : Bool

def Stages.bits (g : Stages) : BitVec 4 :=
  BitVec.ofBool g.udpAccept ++ BitVec.ofBool g.udpLength ++ BitVec.ofBool g.udpPort ++
    BitVec.ofBool g.udpHeader

/-- The bytes of the report, a frame of the type DEBUG. -/
def debugByte (idx stageBits : BitVec 4) : UInt8 :=
  match idx.toNat with
  | 0 => 0x09
  | 1 => 0x01
  | 2 => 0x00
  | 3 => 0x00
  | 4 => 0xe0
  | 5 => 0x00
  | 6 => .ofBitVec (stageBits.setWidth 8)
  | 7 => 0x00
  | 8 => 0x00
  | _ => 0x00

def EchoRegs.reset : EchoRegs where
  state := .idle
  pendingStageBits := 0
  sendStageBits := 0
  sendIndex := 0
  stageDiagSent := false
  mPayloadTdata := 0
  mPayloadTvalid := false
  mPayloadTlast := false

/-- The clocked block of the echo outside the reset. -/
def EchoRegs.step (e : EchoRegs) (g : Stages) (ready : Bool) : EchoRegs :=
  let bits := e.pendingStageBits ||| g.bits
  let e := { e with pendingStageBits := bits }
  match e.state with
  | .idle =>
    let e := { e with mPayloadTvalid := false, mPayloadTlast := false, sendIndex := 0 }
    if g.udpAccept || (g.udpLength && !e.stageDiagSent) then
      { e with
        sendStageBits := bits
        pendingStageBits := 0
        mPayloadTdata := debugByte 0 bits
        mPayloadTvalid := true
        mPayloadTlast := false
        stageDiagSent := true
        state := .send }
    else e
  | .send =>
    if e.mPayloadTvalid && ready then
      if e.sendIndex = 9 then
        { e with mPayloadTvalid := false, mPayloadTlast := false, state := .idle }
      else
        { e with
          sendIndex := e.sendIndex + 1
          mPayloadTdata := debugByte (e.sendIndex + 1) e.sendStageBits
          mPayloadTlast := e.sendIndex == 8 }
    else e

/-! ## The multiplexer -/

inductive Source where
  | diag
  | kernel
  deriving DecidableEq, Repr

structure Params where
  enableRxDiagEcho : Bool := false

/-- The inputs: reset, the progress of the receive filter, the kernel stream and the ready line of
the framer. -/
structure Pins where
  rstN : Bool
  debugDstMacAccepted : Bool
  debugEthAccepted : Bool
  debugIpAccepted : Bool
  rxPacketSeen : Bool
  sAxisTdata : UInt8
  sAxisTvalid : Bool
  sAxisTlast : Bool
  txPayloadTready : Bool

structure Regs where
  txMuxOwner : Option Source
  echo : EchoRegs

def stages (p : Params) (i : Pins) : Stages where
  udpHeader := p.enableRxDiagEcho && i.debugDstMacAccepted
  udpPort := p.enableRxDiagEcho && i.debugEthAccepted
  udpLength := p.enableRxDiagEcho && i.debugIpAccepted
  udpAccept := p.enableRxDiagEcho && i.rxPacketSeen

def txMuxSelected (s : Regs) (i : Pins) : Option Source :=
  if s.txMuxOwner ≠ none then s.txMuxOwner
  else if s.echo.mPayloadTvalid then some .diag
  else if i.sAxisTvalid then some .kernel
  else none

/-- The byte that a source has on its lines. -/
def lineOf (s : Regs) (i : Pins) : Source → AxisByte
  | .diag => ⟨s.echo.mPayloadTdata, s.echo.mPayloadTlast⟩
  | .kernel => ⟨i.sAxisTdata, i.sAxisTlast⟩

def validOf (s : Regs) (i : Pins) : Source → Bool
  | .diag => s.echo.mPayloadTvalid
  | .kernel => i.sAxisTvalid

/-- The lines to the framer. -/
def txPayload (s : Regs) (i : Pins) : AxisByte :=
  match txMuxSelected s i with
  | some src => lineOf s i src
  | none => ⟨0x00, false⟩

def txPayloadTvalid (s : Regs) (i : Pins) : Bool :=
  match txMuxSelected s i with
  | some src => validOf s i src
  | none => false

def readyOf (s : Regs) (i : Pins) (src : Source) : Bool :=
  i.txPayloadTready && txMuxSelected s i == some src

def txPayloadFire (s : Regs) (i : Pins) : Bool := txPayloadTvalid s i && i.txPayloadTready

def step (p : Params) (s : Regs) (i : Pins) : Regs :=
  if !i.rstN then ⟨none, .reset⟩
  else
    { txMuxOwner :=
        if txPayloadFire s i then
          if (txPayload s i).last then none
          else if s.txMuxOwner = none then txMuxSelected s i
          else s.txMuxOwner
        else s.txMuxOwner
      echo := s.echo.step (stages p i) (readyOf s i .diag) }

/-! ## The history of a run -/

inductive Ev where
  /-- A source hands over a byte. -/
  | source (src : Source) (x : AxisByte)
  /-- The framer accepts a byte. -/
  | framer (x : AxisByte)
  deriving DecidableEq

def handedOver (s : Regs) (i : Pins) (src : Source) : List Ev :=
  if validOf s i src && readyOf s i src then [.source src (lineOf s i src)] else []

def events (s : Regs) (i : Pins) : List Ev :=
  if !i.rstN then []
  else handedOver s i .diag ++ handedOver s i .kernel ++
    if txPayloadFire s i then [.framer (txPayload s i)] else []

/-- The bytes of a source. -/
def sourced (src : Source) (h : List Ev) : List AxisByte :=
  h.filterMap fun
    | .source src' x => if src' = src then some x else none
    | _ => none

/-- The bytes that the framer has accepted. -/
def accepted (h : List Ev) : List AxisByte :=
  h.filterMap fun
    | .framer x => some x
    | _ => none

theorem sourced_append (src : Source) (h h' : List Ev) :
    sourced src (h ++ h') = sourced src h ++ sourced src h' :=
  List.filterMap_append

theorem accepted_append (h h' : List Ev) : accepted (h ++ h') = accepted h ++ accepted h' :=
  List.filterMap_append

section Cycle

variable {p : Params} {s : Regs} {i : Pins}

/-- **A cycle**: nothing is handed over, or one source hands over a byte to the framer. -/
theorem cycle_cases (hrst : i.rstN = true) :
    (events s i = [] ∧ (step p s i).txMuxOwner = s.txMuxOwner) ∨
      ∃ src, events s i = [.source src (lineOf s i src), .framer (lineOf s i src)] ∧
        (s.txMuxOwner = none ∨ s.txMuxOwner = some src) ∧
        (step p s i).txMuxOwner = if (lineOf s i src).last then none else some src := by
  have howner : (step p s i).txMuxOwner =
      if txPayloadFire s i then
        if (txPayload s i).last then none
        else if s.txMuxOwner = none then txMuxSelected s i else s.txMuxOwner
      else s.txMuxOwner := by
    simp [step, hrst]
  cases hsel : txMuxSelected s i with
  | none =>
    have hvalid : txPayloadTvalid s i = false := by rw [txPayloadTvalid, hsel]
    have hfire : txPayloadFire s i = false := by rw [txPayloadFire, hvalid, Bool.false_and]
    refine Or.inl ⟨?_, ?_⟩
    · simp [events, hrst, handedOver, readyOf, hsel, hfire]
    · rw [howner, hfire, if_neg Bool.false_ne_true]
  | some src =>
    have hvalid : txPayloadTvalid s i = validOf s i src := by rw [txPayloadTvalid, hsel]
    have hline : txPayload s i = lineOf s i src := by rw [txPayload, hsel]
    have hturn : s.txMuxOwner = none ∨ s.txMuxOwner = some src := by
      by_cases hnone : s.txMuxOwner = none
      · exact Or.inl hnone
      · rw [txMuxSelected, if_pos hnone] at hsel
        exact Or.inr hsel
    cases hfire : txPayloadFire s i with
    | false =>
      refine Or.inl ⟨?_, ?_⟩
      · rw [txPayloadFire, hvalid] at hfire
        cases src <;> simp_all [events, handedOver, readyOf, txPayloadFire]
      · rw [howner, hfire, if_neg Bool.false_ne_true]
    | true =>
      refine Or.inr ⟨src, ?_, hturn, ?_⟩
      · obtain ⟨hv, hr⟩ := Bool.and_eq_true_iff.mp hfire
        rw [hvalid] at hv
        cases src <;> simp [events, hrst, handedOver, readyOf, hsel, hfire, hv, hr, hline]
      · rw [howner, hfire, if_pos rfl, hline, hsel]
        rcases hturn with hnone | hsome
        · rw [if_pos hnone]
        · rw [hsome, if_neg (Option.some_ne_none src)]

end Cycle

/-! ## The reports of the echo -/

/-- A report of the stages that have been reached. -/
def report (stageBits : BitVec 4) : List UInt8 :=
  (List.range 10).map fun k => debugByte (BitVec.ofNat 4 k) stageBits

def reportPacket (stageBits : BitVec 4) : List AxisByte := UdpIpv4Tx.flagged (report stageBits)

theorem length_report (stageBits : BitVec 4) : (report stageBits).length = 10 := by
  simp [report]

theorem isPacket_reportPacket (stageBits : BitVec 4) :
    IsPacket AxisByte.last (reportPacket stageBits) := by
  apply UdpIpv4Tx.isPacket_flagged
  apply List.ne_nil_of_length_pos
  rw [length_report]
  decide

/-- The byte at the index of the echo. -/
theorem take_succ_reportPacket {idx : BitVec 4} (h : idx.toNat ≤ 9) (stageBits : BitVec 4) :
    (reportPacket stageBits).take (idx.toNat + 1) =
      (reportPacket stageBits).take idx.toNat ++
        [⟨debugByte idx stageBits, idx == 9⟩] := by
  have hget : (report stageBits)[idx.toNat]? = some (debugByte idx stageBits) := by
    rw [report, List.getElem?_map, List.getElem?_range (by omega), Option.map_some,
      BitVec.ofNat_toNat, BitVec.setWidth_eq]
  have hlast : (idx.toNat + 1 == (report stageBits).length) = (idx == 9) := by
    rw [length_report]
    by_cases h9 : idx = 9
    · rw [h9]
      rfl
    · have hne : idx.toNat ≠ 9 := fun hnat => h9 (BitVec.eq_of_toNat_eq hnat)
      rw [beq_false_of_ne h9]
      exact beq_false_of_ne (by omega)
  rw [reportPacket, UdpIpv4Tx.take_succ_flagged hget, hlast]

/-- The echo and the bytes it has handed over: whole reports, and the beginning of the one that is
on its way. -/
def Reporting (e : EchoRegs) (xs : List AxisByte) : Prop :=
  ∃ done : List (BitVec 4),
    match e.state with
    | .idle => e.mPayloadTvalid = false ∧ xs = (done.map reportPacket).flatten
    | .send => e.mPayloadTvalid = true ∧ e.sendIndex.toNat ≤ 9 ∧
        e.mPayloadTdata = debugByte e.sendIndex e.sendStageBits ∧
        e.mPayloadTlast = (e.sendIndex == 9) ∧
        xs = (done.map reportPacket).flatten ++
          (reportPacket e.sendStageBits).take e.sendIndex.toNat

theorem Reporting.step {e : EchoRegs} {xs : List AxisByte} (h : Reporting e xs) (g : Stages)
    (ready : Bool) :
    Reporting (e.step g ready)
      (xs ++ if e.mPayloadTvalid && ready then [⟨e.mPayloadTdata, e.mPayloadTlast⟩] else []) := by
  obtain ⟨done, h⟩ := h
  cases hst : e.state with
  | idle =>
    simp only [hst] at h
    obtain ⟨hvalid, hxs⟩ := h
    rw [hvalid, Bool.false_and, if_neg Bool.false_ne_true, List.append_nil]
    refine ⟨done, ?_⟩
    by_cases hstart : (g.udpAccept || (g.udpLength && !e.stageDiagSent)) = true
    · simp only [EchoRegs.step, hst, if_pos hstart]
      refine ⟨trivial, Nat.zero_le _, trivial, rfl, ?_⟩
      rw [hxs]
      exact (List.append_nil _).symm
    · simp only [EchoRegs.step, hst, if_neg hstart]
      exact ⟨trivial, hxs⟩
  | send =>
    simp only [hst] at h
    obtain ⟨hvalid, hidx, hdata, hlast, hxs⟩ := h
    cases ready with
    | false =>
      rw [Bool.and_false, if_neg Bool.false_ne_true, List.append_nil]
      refine ⟨done, ?_⟩
      simp only [EchoRegs.step, hst, Bool.and_false, if_neg Bool.false_ne_true]
      exact ⟨hvalid, hidx, hdata, hlast, hxs⟩
    | true =>
      rw [hvalid, Bool.and_self, if_pos rfl, hdata, hlast, hxs, List.append_assoc,
        ← take_succ_reportPacket hidx]
      by_cases h9 : e.sendIndex = 9
      · -- the last byte: the report is complete
        refine ⟨done ++ [e.sendStageBits], ?_⟩
        simp only [EchoRegs.step, hst, hvalid, Bool.and_self, if_true, if_pos h9]
        refine ⟨trivial, ?_⟩
        have hlen : (reportPacket e.sendStageBits).length = 10 := by
          rw [reportPacket, UdpIpv4Tx.length_flagged, length_report]
        rw [h9, List.take_of_length_le (by rw [hlen]; decide)]
        simp
      · have hne : e.sendIndex.toNat ≠ 9 := fun hnat => h9 (BitVec.eq_of_toNat_eq hnat)
        have hnext : (e.sendIndex + 1).toNat = e.sendIndex.toNat + 1 := by
          have hone : (1 : BitVec 4).toNat = 1 := rfl
          rw [BitVec.toNat_add, hone]
          omega
        have hend : (e.sendIndex == 8) = (e.sendIndex + 1 == 9) := by
          generalize e.sendIndex = idx
          revert idx
          decide
        refine ⟨done, ?_⟩
        simp only [EchoRegs.step, hst, hvalid, Bool.and_self, if_true, if_neg h9]
        refine ⟨trivial, ?_, trivial, hend, ?_⟩
        · rw [hnext]
          omega
        · rw [hnext]

/-- What the echo hands over are reports. -/
theorem Reporting.packets {e : EchoRegs} {xs : List AxisByte} (h : Reporting e xs) :
    ∀ q ∈ split AxisByte.last xs, ∃ stageBits, q <+: reportPacket stageBits := by
  obtain ⟨done, h⟩ := h
  have hdone : ∀ q ∈ done.map reportPacket, IsPacket AxisByte.last q := by
    intro q hq
    obtain ⟨bits, -, rfl⟩ := List.mem_map.mp hq
    exact isPacket_reportPacket bits
  have hwhole : ∀ q ∈ done.map reportPacket, ∃ stageBits, q <+: reportPacket stageBits := by
    intro q hq
    obtain ⟨bits, -, rfl⟩ := List.mem_map.mp hq
    exact ⟨bits, List.prefix_refl _⟩
  intro q hq
  cases hst : e.state with
  | idle =>
    simp only [hst] at h
    rw [h.2, split_flatten hdone] at hq
    exact hwhole q hq
  | send =>
    simp only [hst] at h
    obtain ⟨-, hidx, -, -, hxs⟩ := h
    rw [hxs, split_flatten_append hdone] at hq
    rcases List.mem_append.mp hq with hq | hq
    · exact hwhole q hq
    · by_cases hnil : (reportPacket e.sendStageBits).take e.sendIndex.toNat = []
      · rw [hnil] at hq
        cases hq
      · have hquiet : ∀ x ∈ (reportPacket e.sendStageBits).take e.sendIndex.toNat,
            x.last = false :=
          UdpIpv4Tx.quiet_take_flagged (by rw [length_report]; omega)
        rw [split_quiet hnil hquiet] at hq
        rw [List.mem_singleton.mp hq]
        exact ⟨e.sendStageBits, List.take_prefix _ _⟩

/-! ## The streams -/

/-- The sources take turns at the ends of packets, and the echo sends reports. -/
structure Muxing (s : Regs) (h : List Ev) : Prop where
  merged : Merged AxisByte.last (accepted h) (fun src => sourced src h) s.txMuxOwner
  reporting : Reporting s.echo (sourced .diag h)

/-- The bytes of a source in a cycle. -/
theorem sourced_events {s : Regs} {i : Pins} (hrst : i.rstN = true) (src : Source) :
    sourced src (events s i) =
      if validOf s i src && readyOf s i src then [lineOf s i src] else [] := by
  have hframer : sourced src (if txPayloadFire s i then [.framer (txPayload s i)] else []) = [] := by
    split <;> rfl
  have hover : ∀ src', sourced src (handedOver s i src') =
      if src' = src then
        if validOf s i src && readyOf s i src then [lineOf s i src] else []
      else [] := by
    intro src'
    rw [handedOver]
    by_cases hsrc : src' = src
    · rw [if_pos hsrc, hsrc]
      split
      · simp [sourced]
      · rfl
    · rw [if_neg hsrc]
      split
      · simp [sourced, hsrc]
      · rfl
  have hevents : events s i = handedOver s i .diag ++ handedOver s i .kernel ++
      if txPayloadFire s i then [.framer (txPayload s i)] else [] := by
    simp [events, hrst]
  rw [hevents, sourced_append, sourced_append, hframer, List.append_nil, hover, hover]
  cases src with
  | diag => simp
  | kernel => simp

theorem Muxing.step {p : Params} {s : Regs} {i : Pins} {h : List Ev} (hm : Muxing s h)
    (hrst : i.rstN = true) : Muxing (step p s i) (h ++ events s i) := by
  refine ⟨?_, ?_⟩
  · rw [accepted_append]
    rcases cycle_cases (p := p) (s := s) hrst with ⟨hquiet, howner⟩ | ⟨src, hone, hturn, howner⟩
    · rw [hquiet, howner, List.append_nil]
      simpa [accepted] using hm.merged
    · rw [hone, howner]
      apply hm.merged.push hturn
      intro src'
      rw [sourced_append]
      by_cases hsrc : src' = src
      · simp [sourced, hsrc]
      · simp [sourced, hsrc, Ne.symm hsrc]
  · have hecho : (RmiiUdpStreamBridge.step p s i).echo =
        s.echo.step (stages p i) (readyOf s i .diag) := by
      simp [RmiiUdpStreamBridge.step, hrst]
    rw [hecho, sourced_append, sourced_events hrst]
    exact hm.reporting.step _ _

theorem muxing_run {p : Params} {s₀ : Regs} {i₀ : Pins} (hreset : i₀.rstN = false)
    {cycles : List Pins} (hrst : ∀ i ∈ cycles, i.rstN = true) :
    Muxing (run (step p) (step p s₀ i₀) cycles) (trace (step p) events (step p s₀ i₀) cycles) := by
  have hs : step p s₀ i₀ = ⟨none, .reset⟩ := by simp [step, hreset]
  have hstart : Muxing (step p s₀ i₀) [] := by
    rw [hs]
    exact ⟨Merged.nil _, [], rfl, rfl⟩
  exact invariant (fun i : Pins => i.rstN = true) Muxing hstart
    (fun _ _ _ hi hm => hm.step hi) hrst

/-- **The packets at the framer are packets of one source each.** After a reset, for every
progress of the receive filter, every kernel stream and every ready line of the framer, the packets
that the framer has accepted are the packets of the two sources: each of them a packet of one
source as a whole, up to the one that is still open, and those of a source in its order. So the
accepted bytes of a source are the bytes that it has handed over, none lost and none repeated. The
packets of the echo are reports. -/
theorem packets_atomic (p : Params) {s₀ : Regs} {i₀ : Pins} (hreset : i₀.rstN = false)
    {cycles : List Pins} (hrst : ∀ i ∈ cycles, i.rstN = true) :
    let h := trace (step p) events (step p s₀ i₀) cycles
    (∃ ps : List (Source × List AxisByte),
      ps.map Prod.snd = split AxisByte.last (accepted h) ∧
      (ps.map Prod.snd).flatten = accepted h ∧
      ∀ src, packetsOf src ps = split AxisByte.last (sourced src h) ∧
        (packetsOf src ps).flatten = sourced src h) ∧
    ∀ q ∈ split AxisByte.last (sourced .diag h), ∃ stageBits, q <+: reportPacket stageBits := by
  intro h
  have hm : Muxing (run (step p) (step p s₀ i₀) cycles) h := muxing_run hreset hrst
  refine ⟨?_, hm.reporting.packets⟩
  obtain ⟨ps, hout, hsrc⟩ := hm.merged.packets
  refine ⟨ps, hout, ?_, fun src => ⟨(hsrc src).symm, ?_⟩⟩
  · rw [hout, flatten_split]
  · rw [← hsrc src, flatten_split]

/-- A cycle without a stage of the receive filter. -/
def kernelByte (x : AxisByte) : Pins where
  rstN := true
  debugDstMacAccepted := false
  debugEthAccepted := false
  debugIpAccepted := false
  rxPacketSeen := false
  sAxisTdata := x.data
  sAxisTvalid := true
  sAxisTlast := x.last
  txPayloadTready := true

/-- A packet is accepted while the kernel is inside one, and the report waits for its end. -/
def interruptedCycles : List Pins :=
  [kernelByte ⟨0x11, false⟩, { kernelByte ⟨0x22, false⟩ with rxPacketSeen := true },
    kernelByte ⟨0x33, true⟩] ++ List.replicate 10 (kernelByte ⟨0x44, true⟩)

def interruptedHistory : List Ev :=
  trace (step ⟨true⟩) events
    (step ⟨true⟩ ⟨none, .reset⟩ { kernelByte ⟨0, false⟩ with rstN := false }) interruptedCycles

theorem packets_atomic_interrupted :
    split AxisByte.last (accepted interruptedHistory) =
        [[⟨0x11, false⟩, ⟨0x22, false⟩, ⟨0x33, true⟩], reportPacket 8] ∧
      ∃ ps : List (Source × List AxisByte),
        ps.map Prod.snd = split AxisByte.last (accepted interruptedHistory) ∧
        ∀ src, (packetsOf src ps).flatten = sourced src interruptedHistory := by
  refine ⟨by decide +kernel, ?_⟩
  have hrst : ∀ i ∈ interruptedCycles, i.rstN = true := by decide
  have hreset : { kernelByte ⟨0, false⟩ with rstN := false }.rstN = false := rfl
  obtain ⟨⟨ps, hout, -, hsrc⟩, -⟩ := @packets_atomic ⟨true⟩ ⟨none, .reset⟩ _ hreset _ hrst
  exact ⟨ps, hout, fun src => (hsrc src).2⟩

end FpgaHashJoin.RmiiUdpStreamBridge
