import FpgaHashJoin.Clocked
import FpgaHashJoin.PacketStream
import FpgaHashJoin.Rtl.Ethernet

/-!
# The transmit framer

`udp_ipv4_tx.v`: a datagram is buffered until TLAST and then sent as an Ethernet frame with
padding and FCS. `step` is the clocked block; all assignments of a cycle read the registers
as they were before it.

The datagram buffer takes `maxPayloadBytes`. While it is full the framer is not ready, and it
leaves that state only with a byte that it cannot take: a longer datagram blocks it.
-/

namespace FpgaHashJoin.UdpIpv4Tx

/-- The module's parameters. -/
structure Params where
  localMac : BitVec 48 := 0x020000000001
  localIp : BitVec 32 := 0xA9FEF23C
  localPort : BitVec 16 := 50000
  remoteMac : BitVec 48 := 0x9c69d31f215e
  remoteIp : BitVec 32 := 0xA9FEF23B
  remotePort : BitVec 16 := 50000
  maxPayloadBytes : Nat := 1472

/-- The input pins. -/
structure Pins where
  rstN : Bool
  remoteMac : BitVec 48
  remoteIp : BitVec 32
  remotePort : BitVec 16
  sPayloadTdata : UInt8
  sPayloadTvalid : Bool
  sPayloadTlast : Bool
  mFrameTready : Bool

inductive St where
  | idle
  | recv
  | send
  deriving DecidableEq, Repr

structure Regs where
  state : St
  payloadLen : BitVec 16
  sendIndex : BitVec 16
  dataLenNoFcs : BitVec 16
  totalLenWithFcs : BitVec 16
  crcState : BitVec 32
  fcsLatched : BitVec 32
  txRemoteMac : BitVec 48
  txRemoteIp : BitVec 32
  txRemotePort : BitVec 16
  payloadMem : Nat → UInt8
  mFrameTdata : UInt8
  mFrameTvalid : Bool
  mFrameTlast : Bool
  packetSent : Bool
  payloadOverflow : Bool

def headerBytes : BitVec 16 := 42
def minFrameNoFcs : BitVec 16 := 60

/-! ## Combinational part -/

def sPayloadTready (p : Params) (s : Regs) : Bool :=
  s.state = .idle || (s.state = .recv && s.payloadLen.toNat < p.maxPayloadBytes)

def payloadInputFire (p : Params) (s : Regs) (i : Pins) : Bool :=
  i.sPayloadTvalid && sPayloadTready p s

/-- The one's complement sum of the header words, folded twice. -/
def ipv4Checksum (p : Params) (s : Regs) (totalLen : BitVec 16) : BitVec 16 :=
  let word (x : BitVec 16) : BitVec 20 := x.setWidth 20
  let fold (sum : BitVec 20) : BitVec 20 :=
    (sum.extractLsb' 0 16).setWidth 20 + (sum.extractLsb' 16 4).setWidth 20
  let sum := word 0x4500 + word totalLen + word 0x4011 + word (p.localIp.extractLsb' 16 16) +
    word (p.localIp.extractLsb' 0 16) + word (s.txRemoteIp.extractLsb' 16 16) +
    word (s.txRemoteIp.extractLsb' 0 16)
  ~~~ ((fold (fold sum)).extractLsb' 0 16)

def crc32Next (crc : BitVec 32) (data : UInt8) : BitVec 32 :=
  (List.range 8).foldl (fun c k =>
    if c.getLsbD 0 ^^ data.toBitVec.getLsbD k then (c >>> 1) ^^^ 0xEDB88320 else c >>> 1) crc

def fcsByte (fcs : BitVec 32) (idx : BitVec 2) : UInt8 := byteOf fcs idx.toNat

def frameDataByte (p : Params) (s : Regs) (idx : BitVec 16) : UInt8 :=
  let ipTotalLen := 28 + s.payloadLen
  let udpLen := 8 + s.payloadLen
  let csum := ipv4Checksum p s ipTotalLen
  if idx < 6 then macByte s.txRemoteMac (idx.setWidth 3)
  else if idx < 12 then macByte p.localMac (idx.setWidth 3 - 6)
  else
    match idx.toNat with
    | 12 => 0x08
    | 13 => 0x00
    | 14 => 0x45
    | 15 => 0x00
    | 16 => byteOf ipTotalLen 1
    | 17 => byteOf ipTotalLen 0
    | 18 => 0x00
    | 19 => 0x00
    | 20 => 0x00
    | 21 => 0x00
    | 22 => 0x40
    | 23 => 0x11
    | 24 => byteOf csum 1
    | 25 => byteOf csum 0
    | 26 => ipByte p.localIp 0
    | 27 => ipByte p.localIp 1
    | 28 => ipByte p.localIp 2
    | 29 => ipByte p.localIp 3
    | 30 => ipByte s.txRemoteIp 0
    | 31 => ipByte s.txRemoteIp 1
    | 32 => ipByte s.txRemoteIp 2
    | 33 => ipByte s.txRemoteIp 3
    | 34 => byteOf p.localPort 1
    | 35 => byteOf p.localPort 0
    | 36 => byteOf s.txRemotePort 1
    | 37 => byteOf s.txRemotePort 0
    | 38 => byteOf udpLen 1
    | 39 => byteOf udpLen 0
    | 40 => 0x00
    | 41 => 0x00
    | _ =>
      -- behind the payload the frame is padded to the minimum length
      if idx < headerBytes + s.payloadLen then s.payloadMem (idx - headerBytes).toNat else 0x00

/-! ## The clocked block -/

def reset (p : Params) (s : Regs) : Regs where
  state := .idle
  payloadLen := 0
  sendIndex := 0
  dataLenNoFcs := 0
  totalLenWithFcs := 0
  crcState := 0xFFFFFFFF
  fcsLatched := 0
  txRemoteMac := p.remoteMac
  txRemoteIp := p.remoteIp
  txRemotePort := p.remotePort
  payloadMem := s.payloadMem
  mFrameTdata := 0
  mFrameTvalid := false
  mFrameTlast := false
  packetSent := false
  payloadOverflow := false

/-- The last payload byte has been taken: the first byte of the frame goes out. -/
def startSend (s : Regs) (i : Pins) (dataLen : BitVec 16) : Regs :=
  { s with
    dataLenNoFcs := dataLen
    totalLenWithFcs := dataLen + 4
    state := .send
    mFrameTdata := macByte i.remoteMac 0
    mFrameTvalid := true
    mFrameTlast := false }

def idleStep (p : Params) (s : Regs) (i : Pins) : Regs :=
  let s := { s with
    payloadLen := 0
    sendIndex := 0
    crcState := 0xFFFFFFFF
    mFrameTvalid := false
    mFrameTlast := false
    payloadOverflow := false }
  if i.sPayloadTvalid then
    let s := { s with
      txRemoteMac := i.remoteMac
      txRemoteIp := i.remoteIp
      txRemotePort := i.remotePort
      payloadMem :=
        if 0 < p.maxPayloadBytes then Function.update s.payloadMem 0 i.sPayloadTdata
        else s.payloadMem
      payloadLen := 1 }
    if i.sPayloadTlast then startSend s i minFrameNoFcs else { s with state := .recv }
  else s

def recvStep (p : Params) (s : Regs) (i : Pins) : Regs :=
  if payloadInputFire p s i then
    let len := headerBytes + s.payloadLen + 1
    let s := { s with
      payloadMem := Function.update s.payloadMem s.payloadLen.toNat i.sPayloadTdata
      payloadLen := s.payloadLen + 1 }
    if i.sPayloadTlast then startSend s i (if len < minFrameNoFcs then minFrameNoFcs else len)
    else s
  else if i.sPayloadTvalid && !sPayloadTready p s then { s with payloadOverflow := true }
  else s

/-- The byte behind the current one has been handed over. -/
def sendNext (p : Params) (s : Regs) : Regs :=
  let next := s.sendIndex + 1
  let crc := crc32Next s.crcState s.mFrameTdata
  { s with
    sendIndex := next
    mFrameTlast := next == s.totalLenWithFcs - 1
    mFrameTdata :=
      if next < s.dataLenNoFcs then frameDataByte p s next
      else if s.sendIndex = s.dataLenNoFcs - 1 then fcsByte (~~~ crc) 0
      else fcsByte s.fcsLatched ((next - s.dataLenNoFcs).setWidth 2) }

def sendStep (p : Params) (s : Regs) (i : Pins) : Regs :=
  if s.mFrameTvalid && i.mFrameTready then
    let crc := crc32Next s.crcState s.mFrameTdata
    let sendingData := s.sendIndex < s.dataLenNoFcs
    let crcState := if sendingData then crc else s.crcState
    let fcsLatched :=
      if sendingData ∧ s.sendIndex = s.dataLenNoFcs - 1 then ~~~ crc else s.fcsLatched
    if s.sendIndex = s.totalLenWithFcs - 1 then
      { s with
        crcState, fcsLatched
        state := .idle
        mFrameTvalid := false
        mFrameTlast := false
        packetSent := true }
    else { sendNext p s with crcState, fcsLatched }
  else s

def step (p : Params) (s : Regs) (i : Pins) : Regs :=
  if !i.rstN then reset p s
  else
    match s.state with
    | .idle => idleStep p { s with packetSent := false } i
    | .recv => recvStep p { s with packetSent := false } i
    | .send => sendStep p { s with packetSent := false } i

/-- The payload byte that is handed over in a cycle. -/
def accepted (p : Params) (s : Regs) (i : Pins) : List AxisByte :=
  if i.rstN && payloadInputFire p s i then [⟨i.sPayloadTdata, i.sPayloadTlast⟩] else []

/-! ## The open datagram -/

/-- The buffer is full and the datagram has not ended. -/
def Blocked (p : Params) (s : Regs) : Prop :=
  s.state = .recv ∧ s.payloadLen.toNat = p.maxPayloadBytes

/-- The buffered bytes are those that were taken since the last TLAST. -/
def Buffers (p : Params) (s : Regs) (taken : List AxisByte) : Prop :=
  match s.state with
  | .recv => PacketStream.pending AxisByte.last taken = s.payloadLen.toNat ∧
    s.payloadLen.toNat ≤ p.maxPayloadBytes
  | _ => PacketStream.pending AxisByte.last taken = 0

section Buffer

variable {p : Params} {s : Regs} {i : Pins} {taken : List AxisByte}

theorem Buffers.of_idle (h : s.state = .idle) : Buffers p s [] := by
  simp [Buffers, h]

theorem step_idle (hrst : i.rstN = true) (h : s.state = .idle) :
    step p s i = idleStep p { s with packetSent := false } i := by
  simp [step, hrst, h]

theorem step_recv (hrst : i.rstN = true) (h : s.state = .recv) :
    step p s i = recvStep p { s with packetSent := false } i := by
  simp [step, hrst, h]

theorem step_send (hrst : i.rstN = true) (h : s.state = .send) :
    step p s i = sendStep p { s with packetSent := false } i := by
  simp [step, hrst, h]

theorem accepted_of_fire (hrst : i.rstN = true) (hfire : payloadInputFire p s i = true) :
    accepted p s i = [⟨i.sPayloadTdata, i.sPayloadTlast⟩] := by
  simp [accepted, hrst, hfire]

theorem accepted_of_not_fire (hfire : payloadInputFire p s i = false) : accepted p s i = [] := by
  simp [accepted, hfire]

theorem fire_iff_recv (hs : s.state = .recv) : payloadInputFire p s i = true ↔
    i.sPayloadTvalid = true ∧ s.payloadLen.toNat < p.maxPayloadBytes := by
  simp [payloadInputFire, sPayloadTready, hs]

theorem fire_idle (hs : s.state = .idle) : payloadInputFire p s i = i.sPayloadTvalid := by
  simp [payloadInputFire, sPayloadTready, hs]

theorem fire_send (hs : s.state = .send) : payloadInputFire p s i = false := by
  simp [payloadInputFire, sPayloadTready, hs]

/-! What one cycle does, case by case. -/

/-- The registers that are cleared while the framer is idle. -/
def cleared (s : Regs) : Regs :=
  { s with
    payloadLen := 0
    sendIndex := 0
    crcState := 0xFFFFFFFF
    mFrameTvalid := false
    mFrameTlast := false
    payloadOverflow := false }

/-- The first payload byte is stored, with the endpoint on the pins. -/
def latched (p : Params) (s : Regs) (i : Pins) : Regs :=
  { cleared s with
    txRemoteMac := i.remoteMac
    txRemoteIp := i.remoteIp
    txRemotePort := i.remotePort
    payloadMem :=
      if 0 < p.maxPayloadBytes then Function.update s.payloadMem 0 i.sPayloadTdata
      else s.payloadMem
    payloadLen := 1 }

/-- A further payload byte is stored. -/
def stored (s : Regs) (i : Pins) : Regs :=
  { s with
    payloadMem := Function.update s.payloadMem s.payloadLen.toNat i.sPayloadTdata
    payloadLen := s.payloadLen + 1 }

theorem idleStep_quiet (hv : i.sPayloadTvalid = false) : idleStep p s i = cleared s := by
  simp [idleStep, hv, cleared]

theorem idleStep_first (hv : i.sPayloadTvalid = true) (hl : i.sPayloadTlast = false) :
    idleStep p s i = { latched p s i with state := .recv } := by
  simp [idleStep, hv, hl, latched, cleared]

theorem idleStep_only (hv : i.sPayloadTvalid = true) (hl : i.sPayloadTlast = true) :
    idleStep p s i = startSend (latched p s i) i minFrameNoFcs := by
  simp [idleStep, hv, hl, latched, cleared]

theorem recvStep_next (hfire : payloadInputFire p s i = true) (hl : i.sPayloadTlast = false) :
    recvStep p s i = stored s i := by
  simp [recvStep, hfire, hl, stored]

theorem recvStep_last (hfire : payloadInputFire p s i = true) (hl : i.sPayloadTlast = true) :
    recvStep p s i = startSend (stored s i) i
      (if headerBytes + s.payloadLen + 1 < minFrameNoFcs then minFrameNoFcs
        else headerBytes + s.payloadLen + 1) := by
  simp [recvStep, hfire, hl, stored]

theorem recvStep_quiet (hfire : payloadInputFire p s i = false) :
    ∃ overflow, recvStep p s i = { s with payloadOverflow := overflow } := by
  rw [recvStep, hfire, if_neg Bool.false_ne_true]
  split
  · exact ⟨true, rfl⟩
  · exact ⟨s.payloadOverflow, rfl⟩

theorem Buffers.idleStep (hmax : 0 < p.maxPayloadBytes) (hrst : i.rstN = true)
    (hs : s.state = .idle) (h : PacketStream.pending AxisByte.last taken = 0) :
    Buffers p (step p s i) (taken ++ accepted p s i) := by
  rw [step_idle hrst hs]
  cases hv : i.sPayloadTvalid with
  | false =>
    rw [accepted_of_not_fire ((fire_idle hs).trans hv), List.append_nil, Buffers,
      idleStep_quiet hv, show (cleared { s with packetSent := false }).state = .idle from hs]
    exact h
  | true =>
    rw [accepted_of_fire hrst ((fire_idle hs).trans hv)]
    cases hl : i.sPayloadTlast with
    | true =>
      rw [Buffers, idleStep_only hv hl]
      exact PacketStream.pending_snoc_of_last _ rfl
    | false =>
      rw [Buffers, idleStep_first hv hl, PacketStream.pending_snoc _ rfl, h]
      exact ⟨rfl, hmax⟩

theorem Buffers.recvStep (hmax : p.maxPayloadBytes < 2 ^ 16) (hrst : i.rstN = true)
    (hs : s.state = .recv)
    (h : PacketStream.pending AxisByte.last taken = s.payloadLen.toNat)
    (hlen : s.payloadLen.toNat ≤ p.maxPayloadBytes) :
    Buffers p (step p s i) (taken ++ accepted p s i) := by
  let s' : Regs := { s with packetSent := false }
  have hfire' : payloadInputFire p s' i = payloadInputFire p s i := rfl
  rw [step_recv hrst hs]
  cases hfire : payloadInputFire p s i with
  | false =>
    obtain ⟨overflow, hsame⟩ := recvStep_quiet (s := s') (hfire'.trans hfire)
    rw [accepted_of_not_fire hfire, List.append_nil, hsame]
    simp only [Buffers, s', hs]
    exact ⟨h, hlen⟩
  | true =>
    have hroom := ((fire_iff_recv hs).mp hfire).2
    rw [accepted_of_fire hrst hfire]
    cases hl : i.sPayloadTlast with
    | true =>
      rw [Buffers, recvStep_last (s := s') (hfire'.trans hfire) hl]
      exact PacketStream.pending_snoc_of_last _ rfl
    | false =>
      have hsucc : (s.payloadLen + 1).toNat = s.payloadLen.toNat + 1 := by bv_omega
      rw [recvStep_next (s := s') (hfire'.trans hfire) hl]
      simp only [Buffers, stored, s', hs, PacketStream.pending_snoc _ (show AxisByte.last
        ⟨i.sPayloadTdata, false⟩ = false from rfl), hsucc]
      exact ⟨by rw [h], hroom⟩

theorem sendStep_state (s : Regs) (i : Pins) (hs : s.state = .send) :
    (sendStep p s i).state = .send ∨ (sendStep p s i).state = .idle := by
  unfold sendStep
  split
  · dsimp only
    split
    · exact .inr rfl
    · exact .inl hs
  · exact .inl hs

/-- **One cycle.** -/
theorem Buffers.step (hmax : 0 < p.maxPayloadBytes) (hmax' : p.maxPayloadBytes < 2 ^ 16)
    (hrst : i.rstN = true) (h : Buffers p s taken) :
    Buffers p (step p s i) (taken ++ accepted p s i) := by
  unfold Buffers at h
  cases hs : s.state with
  | idle =>
    rw [hs] at h
    exact Buffers.idleStep hmax hrst hs h
  | recv =>
    rw [hs] at h
    exact Buffers.recvStep hmax' hrst hs h.1 h.2
  | send =>
    rw [hs] at h
    rw [accepted_of_not_fire (fire_send hs), List.append_nil, step_send hrst hs]
    rcases sendStep_state (p := p) { s with packetSent := false } i hs with hs' | hs'
    · rw [Buffers, hs']
      exact h
    · rw [Buffers, hs']
      exact h

/-- What holds after any number of cycles. -/
theorem buffers_run (hmax : 0 < p.maxPayloadBytes) (hmax' : p.maxPayloadBytes < 2 ^ 16)
    (hs : s.state = .idle) {cycles : List Pins} (hrst : ∀ i ∈ cycles, i.rstN = true) :
    Buffers p (Clocked.run (UdpIpv4Tx.step p) s cycles)
      (Clocked.trace (UdpIpv4Tx.step p) (accepted p) s cycles) :=
  Clocked.invariant (fun i : Pins => i.rstN = true) (Buffers p) (.of_idle hs)
    (fun _ _ _ hi h => h.step hmax hmax' hi) hrst

/-- **Datagrams that fit never block the framer.** -/
theorem not_blocked (hmax : 0 < p.maxPayloadBytes) (hmax' : p.maxPayloadBytes < 2 ^ 16)
    (hs : s.state = .idle) {cycles : List Pins} (hrst : ∀ i ∈ cycles, i.rstN = true)
    {packets : List (List AxisByte)}
    (hpackets : ∀ q ∈ packets, PacketStream.IsPacket AxisByte.last q ∧
      q.length ≤ p.maxPayloadBytes)
    (htaken : Clocked.trace (UdpIpv4Tx.step p) (accepted p) s cycles <+: packets.flatten) :
    ¬ Blocked p (Clocked.run (UdpIpv4Tx.step p) s cycles) := by
  rintro ⟨hrecv, hfull⟩
  have hbuf := buffers_run hmax hmax' hs hrst
  have hopen := PacketStream.pending_lt hmax hpackets htaken
  rw [Buffers, hrecv] at hbuf
  omega

end Buffer

/-! ## Progress, and the end of it -/

/-- A cycle in which a byte is offered and the frame output is ready. -/
def feed (x : AxisByte) : Pins where
  rstN := true
  remoteMac := 0
  remoteIp := 0
  remotePort := 0
  sPayloadTdata := x.data
  sPayloadTvalid := true
  sPayloadTlast := x.last
  mFrameTready := true

/-- A cycle in which nothing is offered. -/
def pause : Pins := { feed ⟨0, false⟩ with sPayloadTvalid := false }

section Progress

variable {p : Params} {s : Regs}

/-- The last byte of the frame has been handed over. -/
theorem sendStep_final {i : Pins} (hvalid : s.mFrameTvalid = true) (hready : i.mFrameTready = true)
    (hlast : s.sendIndex = s.totalLenWithFcs - 1) :
    ∃ crc fcs, sendStep p s i = { s with
      crcState := crc
      fcsLatched := fcs
      state := .idle
      mFrameTvalid := false
      mFrameTlast := false
      packetSent := true } := by
  rw [sendStep, if_pos (by rw [hvalid, hready]; rfl)]
  dsimp only
  rw [if_pos hlast]
  exact ⟨_, _, rfl⟩

theorem sendStep_next {i : Pins} (hvalid : s.mFrameTvalid = true) (hready : i.mFrameTready = true)
    (hlast : s.sendIndex ≠ s.totalLenWithFcs - 1) :
    (sendStep p s i).state = s.state ∧ (sendStep p s i).mFrameTvalid = true ∧
      (sendStep p s i).sendIndex = s.sendIndex + 1 ∧
      (sendStep p s i).totalLenWithFcs = s.totalLenWithFcs := by
  unfold sendStep
  rw [if_pos (by simp [hvalid, hready])]
  dsimp only
  rw [if_neg hlast]
  exact ⟨rfl, hvalid, rfl, rfl⟩

theorem sendStep_stalled {i : Pins} (hready : i.mFrameTready = false) : sendStep p s i = s := by
  simp [sendStep, hready]

/-- **A frame that goes out ends**, whenever the other side stalls: it needs one ready cycle for
each of its bytes. -/
theorem send_ends {n : Nat} {cycles : List Pins} (hrst : ∀ i ∈ cycles, i.rstN = true)
    (hs : s.state = .send) (hvalid : s.mFrameTvalid = true)
    (hn : (s.totalLenWithFcs - 1 - s.sendIndex).toNat = n)
    (hready : n < cycles.countP Pins.mFrameTready) :
    ∃ pre, pre <+: cycles ∧ (Clocked.run (step p) s pre).state = .idle ∧
      Clocked.trace (step p) (accepted p) s pre = [] := by
  induction cycles generalizing s n with
  | nil => exact absurd hready (Nat.not_lt_zero _)
  | cons i cycles ih =>
    have hi := hrst i List.mem_cons_self
    have hquiet : accepted p s i = [] := accepted_of_not_fire (fire_send hs)
    let s' : Regs := { s with packetSent := false }
    have hstep : step p s i = sendStep p s' i := step_send hi hs
    cases hr : i.mFrameTready with
    | false =>
      rw [List.countP_cons_of_neg (by simp [hr])] at hready
      obtain ⟨pre, hpre, hidle, hnone⟩ :=
        ih (s := s') (fun j hj => hrst j (List.mem_cons_of_mem _ hj)) hs hvalid hn hready
      rw [sendStep_stalled hr] at hstep
      refine ⟨i :: pre, (List.prefix_cons_inj i).mpr hpre, ?_, ?_⟩
      · rw [Clocked.run_cons, hstep]
        exact hidle
      · rw [Clocked.trace_cons, hquiet, hstep, hnone]
        rfl
    | true =>
      rw [List.countP_cons_of_pos hr] at hready
      by_cases hlast : s.sendIndex = s.totalLenWithFcs - 1
      · obtain ⟨crc, fcs, hend⟩ := sendStep_final (p := p) (s := s') hvalid hr hlast
        refine ⟨[i], ⟨cycles, rfl⟩, ?_, ?_⟩
        · rw [Clocked.run_cons, Clocked.run_nil, hstep, hend]
        · rw [Clocked.trace_cons, hquiet]
          rfl
      · obtain ⟨hs', hvalid', hindex, htotal⟩ := sendStep_next (p := p) (s := s') hvalid hr hlast
        rw [← hstep] at hs' hvalid' hindex htotal
        have hless : ((step p s i).totalLenWithFcs - 1 - (step p s i).sendIndex).toNat <
            cycles.countP Pins.mFrameTready := by
          rw [hindex, htotal]
          change (s.totalLenWithFcs - 1 - (s.sendIndex + 1)).toNat < _
          bv_omega
        obtain ⟨pre, hpre, hidle, hnone⟩ :=
          ih (fun j hj => hrst j (List.mem_cons_of_mem _ hj)) (hs'.trans hs) hvalid' rfl hless
        refine ⟨i :: pre, (List.prefix_cons_inj i).mpr hpre, hidle, ?_⟩
        rw [Clocked.trace_cons, hquiet, hnone]
        rfl

/-- A byte that is not the last one is buffered. -/
theorem step_feed (hmax : p.maxPayloadBytes < 2 ^ 16) {x : AxisByte} (hx : x.last = false)
    (hs : s.state = .recv) (hroom : s.payloadLen.toNat < p.maxPayloadBytes) :
    accepted p s (feed x) = [x] ∧ (step p s (feed x)).state = .recv ∧
      (step p s (feed x)).payloadLen.toNat = s.payloadLen.toNat + 1 := by
  have hfire : payloadInputFire p s (feed x) = true := (fire_iff_recv hs).mpr ⟨rfl, hroom⟩
  have hsucc : (s.payloadLen + 1).toNat = s.payloadLen.toNat + 1 := by bv_omega
  rw [step_recv rfl hs, recvStep_next (s := { s with packetSent := false }) hfire hx]
  exact ⟨accepted_of_fire rfl hfire, hs, hsucc⟩

theorem step_feed_first {x : AxisByte} (hx : x.last = false) (hs : s.state = .idle) :
    accepted p s (feed x) = [x] ∧ (step p s (feed x)).state = .recv ∧
      (step p s (feed x)).payloadLen.toNat = 1 := by
  rw [step_idle rfl hs, idleStep_first rfl hx]
  exact ⟨accepted_of_fire rfl ((fire_idle hs).trans rfl), rfl, rfl⟩

/-- The last byte starts the frame. -/
theorem step_feed_last {x : AxisByte} (hx : x.last = true)
    (hs : s.state = .idle ∨ s.state = .recv ∧ s.payloadLen.toNat < p.maxPayloadBytes) :
    accepted p s (feed x) = [x] ∧ (step p s (feed x)).state = .send ∧
      (step p s (feed x)).mFrameTvalid = true := by
  rcases hs with hs | ⟨hs, hroom⟩
  · rw [step_idle rfl hs, idleStep_only rfl hx]
    exact ⟨accepted_of_fire rfl ((fire_idle hs).trans rfl), rfl, rfl⟩
  · have hfire : payloadInputFire p s (feed x) = true := (fire_iff_recv hs).mpr ⟨rfl, hroom⟩
    rw [step_recv rfl hs, recvStep_last (s := { s with packetSent := false }) hfire hx]
    exact ⟨accepted_of_fire rfl hfire, rfl, rfl⟩

/-- The bytes in front of the last one are buffered. -/
theorem run_fill (hmax : p.maxPayloadBytes < 2 ^ 16) (hs : s.state = .idle)
    {xs : List AxisByte} (hxs : ∀ x ∈ xs, x.last = false) (hlen : xs.length ≤ p.maxPayloadBytes) :
    Clocked.trace (step p) (accepted p) s (xs.map feed) = xs ∧
      if xs = [] then (Clocked.run (step p) s (xs.map feed)).state = .idle
      else (Clocked.run (step p) s (xs.map feed)).state = .recv ∧
        (Clocked.run (step p) s (xs.map feed)).payloadLen.toNat = xs.length := by
  induction xs using List.reverseRecOn with
  | nil => exact ⟨rfl, by simpa using hs⟩
  | append_singleton xs x ih =>
    rw [List.length_append, List.length_singleton] at hlen
    obtain ⟨htrace, hstate⟩ := ih (fun y hy => hxs y (List.mem_append_left _ hy)) (by omega)
    have hx : x.last = false := hxs x (by simp)
    rw [List.map_append, List.map_singleton, Clocked.trace_append, Clocked.run_append, htrace,
      if_neg (by simp), List.length_append, List.length_singleton]
    by_cases hnil : xs = []
    · subst hnil
      obtain ⟨hacc, hrecv, hone⟩ := step_feed_first (p := p) hx hs
      exact ⟨by simp [hacc], hrecv, hone⟩
    · rw [if_neg hnil] at hstate
      obtain ⟨hacc, hrecv, hnext⟩ := step_feed hmax hx hstate.1 (by omega)
      exact ⟨by simp [hacc], hrecv, by rw [Clocked.run_cons, Clocked.run_nil, hnext, hstate.2]⟩

theorem feeds_rstN {xs : List AxisByte} : ∀ i ∈ xs.map feed, i.rstN = true := by
  intro i hi
  obtain ⟨x, -, rfl⟩ := List.mem_map.mp hi
  rfl

/-- **A datagram that fits is taken and sent.** -/
theorem takes_packet (hmax : p.maxPayloadBytes < 2 ^ 16) (hs : s.state = .idle)
    {q : List AxisByte} (hq : PacketStream.IsPacket AxisByte.last q)
    (hlen : q.length ≤ p.maxPayloadBytes) :
    ∃ cycles, (∀ i ∈ cycles, i.rstN = true) ∧
      (Clocked.run (step p) s cycles).state = .idle ∧
      Clocked.trace (step p) (accepted p) s cycles = q := by
  obtain ⟨front, x, rfl, hx, hfront⟩ := hq
  rw [List.length_append, List.length_singleton] at hlen
  obtain ⟨htrace, hstate⟩ := run_fill hmax hs hfront (by omega)
  generalize hs₁ : Clocked.run (step p) s (front.map feed) = s₁ at hstate
  have hready : s₁.state = .idle ∨ s₁.state = .recv ∧ s₁.payloadLen.toNat < p.maxPayloadBytes := by
    by_cases hnil : front = []
    · rw [if_pos hnil] at hstate
      exact .inl hstate
    · rw [if_neg hnil] at hstate
      exact .inr ⟨hstate.1, by omega⟩
  obtain ⟨hacc, hsend, hvalid⟩ := step_feed_last hx hready
  obtain ⟨n, hn⟩ : ∃ n, ((step p s₁ (feed x)).totalLenWithFcs - 1 -
      (step p s₁ (feed x)).sendIndex).toNat = n := ⟨_, rfl⟩
  have hpauses : n < (List.replicate (n + 1) pause).countP Pins.mFrameTready := by
    have hready : pause.mFrameTready = true := rfl
    rw [List.countP_replicate, if_pos hready]
    exact Nat.lt_succ_self n
  have hrst : ∀ i ∈ List.replicate (n + 1) pause, i.rstN = true := by
    intro i hi
    rw [List.eq_of_mem_replicate hi]
    rfl
  obtain ⟨pre, hpre, hidle, hquiet⟩ := send_ends (p := p) hrst hsend hvalid hn hpauses
  refine ⟨front.map feed ++ feed x :: pre, ?_, ?_, ?_⟩
  · intro i hi
    rcases List.mem_append.mp hi with hi | hi
    · exact feeds_rstN i hi
    · rcases List.mem_cons.mp hi with rfl | hi
      · rfl
      · exact hrst i (hpre.subset hi)
  · rw [Clocked.run_append, Clocked.run_cons, hs₁]
    exact hidle
  · rw [Clocked.trace_append, htrace, hs₁, Clocked.trace_cons, hacc, hquiet, List.append_nil]

theorem takes_packets (hmax : p.maxPayloadBytes < 2 ^ 16) (hs : s.state = .idle)
    {packets : List (List AxisByte)}
    (hpackets : ∀ q ∈ packets, PacketStream.IsPacket AxisByte.last q ∧
      q.length ≤ p.maxPayloadBytes) :
    ∃ cycles, (∀ i ∈ cycles, i.rstN = true) ∧
      (Clocked.run (step p) s cycles).state = .idle ∧
      Clocked.trace (step p) (accepted p) s cycles = packets.flatten := by
  induction packets generalizing s with
  | nil => exact ⟨[], by simp, hs, rfl⟩
  | cons q packets ih =>
    obtain ⟨hq, hlen⟩ := hpackets q List.mem_cons_self
    obtain ⟨c₁, hrst₁, hidle₁, htrace₁⟩ := takes_packet hmax hs hq hlen
    obtain ⟨c₂, hrst₂, hidle₂, htrace₂⟩ :=
      ih hidle₁ fun r hr => hpackets r (List.mem_cons_of_mem _ hr)
    refine ⟨c₁ ++ c₂, fun i hi => ?_, ?_, ?_⟩
    · exact (List.mem_append.mp hi).elim (hrst₁ i) (hrst₂ i)
    · rw [Clocked.run_append]
      exact hidle₂
    · rw [Clocked.trace_append, htrace₁, htrace₂, List.flatten_cons]

/-- **A datagram that does not fit fills the buffer.** -/
theorem blocks (hmax : 0 < p.maxPayloadBytes) (hmax' : p.maxPayloadBytes < 2 ^ 16)
    (hs : s.state = .idle) {q : List AxisByte} (hq : PacketStream.IsPacket AxisByte.last q)
    (hlen : p.maxPayloadBytes < q.length) :
    ∃ cycles, (∀ i ∈ cycles, i.rstN = true) ∧ Blocked p (Clocked.run (step p) s cycles) ∧
      Clocked.trace (step p) (accepted p) s cycles = q.take p.maxPayloadBytes := by
  obtain ⟨front, x, rfl, hx, hfront⟩ := hq
  rw [List.length_append, List.length_singleton] at hlen
  have hlen' : (front.take p.maxPayloadBytes).length = p.maxPayloadBytes := by
    rw [List.length_take]
    omega
  have hne : front.take p.maxPayloadBytes ≠ [] :=
    List.ne_nil_of_length_pos (by omega)
  obtain ⟨htrace, hstate⟩ := run_fill hmax' hs
    (fun y hy => hfront y (List.mem_of_mem_take hy)) hlen'.le
  rw [if_neg hne, hlen'] at hstate
  refine ⟨(front.take p.maxPayloadBytes).map feed, feeds_rstN, hstate, ?_⟩
  rw [htrace, List.take_append_of_le_length (by omega)]

/-- **It stays full**, whatever happens on the pins, until a reset. -/
theorem blocked_forever {cycles : List Pins} (hrst : ∀ i ∈ cycles, i.rstN = true)
    (h : Blocked p s) : Blocked p (Clocked.run (step p) s cycles) ∧
      Clocked.trace (step p) (accepted p) s cycles = [] := by
  induction cycles generalizing s with
  | nil => exact ⟨h, rfl⟩
  | cons i cycles ih =>
    have hfire : payloadInputFire p s i = false := by
      rw [Bool.eq_false_iff]
      intro hf
      have hroom := ((fire_iff_recv h.1).mp hf).2
      exact absurd h.2 (by omega)
    have hstep : Blocked p (step p s i) := by
      obtain ⟨overflow, hsame⟩ := recvStep_quiet (s := { s with packetSent := false }) hfire
      rw [step_recv (hrst i List.mem_cons_self) h.1, hsame]
      exact h
    obtain ⟨hrun, htrace⟩ := ih (fun j hj => hrst j (List.mem_cons_of_mem _ hj)) hstep
    exact ⟨hrun, by rw [Clocked.trace_cons, accepted_of_not_fire hfire, htrace]; rfl⟩

end Progress

end FpgaHashJoin.UdpIpv4Tx
