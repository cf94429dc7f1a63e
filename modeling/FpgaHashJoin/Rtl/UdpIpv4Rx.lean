import FpgaHashJoin.Clocked
import FpgaHashJoin.Rtl.Ethernet

/-!
# The receive filter

`udp_ipv4_rx.v`: a byte-serial parser picks the UDP datagrams for this board out of the
received frames and writes their payloads into two buffers; an output stage sends the
buffers on as packets of a stream. `step` is the clocked block. Its sections are functions of
the registers before the cycle, `s`, and of the registers as assigned so far, `acc`: all reads
are from `s`, and a later assignment to a register overrides an earlier one.
-/

namespace FpgaHashJoin.UdpIpv4Rx

/-- The module's parameters. -/
structure Params where
  localMac : BitVec 48 := 0x020000000001
  localIp : BitVec 32 := 0xA9FEF23C
  subnetBroadcastIp : BitVec 32 := 0xA9FEFFFF
  localPort : BitVec 16 := 50000
  acceptAnyDestMac : Bool := false
  maxPayloadBytes : Nat := 1472

/-- The input pins. -/
structure Pins where
  rstN : Bool := true
  rxByte : UInt8 := 0
  rxByteValid : Bool := false
  rxFrameStart : Bool := false
  rxFrameEnd : Bool := false
  rxFrameError : Bool := false
  mPayloadTready : Bool := false

inductive St where
  | idle
  | eth
  | ip
  | udp
  | payload
  | drop
  deriving DecidableEq, Repr, Inhabited

structure Endpoint where
  mac : BitVec 48
  ip : BitVec 32
  port : BitVec 16
  deriving DecidableEq, Inhabited

/-- The registers of the parser. -/
structure Parser where
  state : St
  index : BitVec 6
  dstMacMatch : Bool
  dstMacBcast : Bool
  ethertypeIpv4 : Bool
  ipOk : Bool
  dstIpMatch : Bool
  dstIpBcast : Bool
  dstIpSubnetBcast : Bool
  udpPortMatch : Bool
  ipTotalLength : BitVec 16
  udpLength : BitVec 16
  payloadRemaining : BitVec 16
  payloadLen : BitVec 16
  packetSrc : Endpoint
  deriving Inhabited

/-- `buf_len`, `buf_pending` and `payload_mem` of one of the two buffers. -/
structure Buffer where
  len : BitVec 16
  pending : Bool
  mem : Nat → UInt8
  deriving Inhabited

/-- The registers of the output stage. -/
structure Output where
  active : Bool
  readBuf : Bool
  readLen : BitVec 16
  readIndex : BitVec 16
  tdata : UInt8
  tvalid : Bool
  tlast : Bool
  deriving Inhabited

structure Diagnostics where
  packetSeen : Bool
  packetDropped : Bool
  parserError : Bool
  debugDstMacAccepted : Bool
  debugEthertypeHiAccepted : Bool
  debugEthAccepted : Bool
  debugIpAccepted : Bool
  deriving Inhabited

/-- All registers; buffer 0 is `bufs false`, buffer 1 `bufs true`. -/
structure Regs where
  parser : Parser
  writeBuf : Bool
  bufs : Bool → Buffer
  out : Output
  remote : Endpoint
  diag : Diagnostics
  deriving Inhabited

/-- `write_buf0_busy` and `write_buf1_busy`. -/
def bufBusy (s : Regs) (k : Bool) : Bool :=
  (s.bufs k).pending || (s.out.active && s.out.readBuf == k)

def writeBufBusy (s : Regs) : Bool := bufBusy s s.writeBuf

/-- The memories keep their contents. -/
def reset (s : Regs) : Regs where
  parser :=
    { state := .idle, index := 0, dstMacMatch := false, dstMacBcast := false
      ethertypeIpv4 := false, ipOk := false, dstIpMatch := false, dstIpBcast := false
      dstIpSubnetBcast := false, udpPortMatch := false, ipTotalLength := 0, udpLength := 0
      payloadRemaining := 0, payloadLen := 0, packetSrc := ⟨0, 0, 0⟩ }
  writeBuf := false
  bufs k := { len := 0, pending := false, mem := (s.bufs k).mem }
  out :=
    { active := false, readBuf := false, readLen := 0, readIndex := 0, tdata := 0
      tvalid := false, tlast := false }
  remote := ⟨0, 0, 0⟩
  diag := ⟨false, false, false, false, false, false, false⟩

/-! ## The output stage -/

/-- The first byte of a buffer. -/
def startOutput (s acc : Regs) (k : Bool) : Regs :=
  { acc with
    out.active := true
    out.readBuf := k
    out.readLen := (s.bufs k).len
    out.readIndex := 0
    out.tdata := (s.bufs k).mem 0
    out.tvalid := true
    out.tlast := (s.bufs k).len == 1 }

def outputStep (s acc : Regs) (i : Pins) : Regs :=
  let o := s.out
  if !o.active && !o.tvalid then
    if (s.bufs false).pending then startOutput s acc false
    else if (s.bufs true).pending then startOutput s acc true
    else acc
  else if o.tvalid && i.mPayloadTready then
    if o.tlast then
      { acc with
        out.tvalid := false
        out.tlast := false
        out.active := false
        bufs := Function.update acc.bufs o.readBuf { acc.bufs o.readBuf with pending := false } }
    else
      { acc with
        out.readIndex := o.readIndex + 1
        out.tdata := (s.bufs o.readBuf).mem (o.readIndex + 1).toNat
        out.tlast := o.readIndex + 1 == o.readLen - 1 }
  else acc

/-! ## The parser -/

def startStep (s acc : Regs) : Regs :=
  if writeBufBusy s then
    { acc with parser.state := .drop, diag.parserError := true }
  else
    { acc with
      parser :=
        { state := .eth, index := 0, dstMacMatch := true, dstMacBcast := true
          ethertypeIpv4 := false, ipOk := true, dstIpMatch := true, dstIpBcast := true
          dstIpSubnetBcast := true, udpPortMatch := true, ipTotalLength := 0, udpLength := 0
          payloadRemaining := 0, payloadLen := 0, packetSrc := ⟨0, 0, 0⟩ } }

def endStep (s acc : Regs) (i : Pins) : Regs :=
  let acc := { acc with parser.state := .idle }
  let acc :=
    if s.parser.state = .payload ∧ s.parser.payloadRemaining ≠ 0 then
      { acc with diag.parserError := true }
    else acc
  if i.rxFrameError then { acc with diag.parserError := true } else acc

def dropPacket (acc : Regs) : Regs :=
  { acc with parser.state := .drop, diag.packetDropped := true }

/-- The byte of the source MAC address that comes at `index`. -/
def srcMacPos (index : BitVec 6) : Nat :=
  match index.toNat with
  | 6 => 5
  | 7 => 4
  | 8 => 3
  | 9 => 2
  | 10 => 1
  | _ => 0

def ethByte (p : Params) (s acc : Regs) (b : UInt8) : Regs :=
  let q := s.parser
  let acc :=
    if q.index < 6 then
      let acc :=
        if b ≠ macByte p.localMac (q.index.setWidth 3) then
          { acc with parser.dstMacMatch := false }
        else acc
      if b ≠ 0xff then { acc with parser.dstMacBcast := false } else acc
    else if q.index < 12 then
      { acc with parser.packetSrc.mac := setByte acc.parser.packetSrc.mac (srcMacPos q.index) b }
    else if q.index = 12 then
      let acc := { acc with parser.ethertypeIpv4 := b == 0x08 }
      if b = 0x08 then { acc with diag.debugEthertypeHiAccepted := true } else acc
    else if q.index = 13 then
      let acc := { acc with parser.ethertypeIpv4 := q.ethertypeIpv4 && b == 0x00 }
      if !(p.acceptAnyDestMac || q.dstMacMatch || q.dstMacBcast) ||
          !(q.ethertypeIpv4 && b == 0x00) then dropPacket acc
      else { acc with parser.state := .ip, parser.index := 0 }
    else acc
  if q.state = .eth ∧ q.index ≠ 13 then { acc with parser.index := q.index + 1 } else acc

/-- The registers that a byte of the IPv4 header sets. -/
def ipField (p : Params) (s acc : Regs) (b : UInt8) : Regs :=
  let dstIp (acc : Regs) : Regs :=
    let byteOf (ip : BitVec 32) := ipByte ip (s.parser.index.setWidth 2)
    let acc := if b ≠ byteOf p.localIp then { acc with parser.dstIpMatch := false } else acc
    let acc := if b ≠ 0xff then { acc with parser.dstIpBcast := false } else acc
    if b ≠ byteOf p.subnetBroadcastIp then { acc with parser.dstIpSubnetBcast := false } else acc
  let srcIp (k : Nat) : Regs :=
    { acc with parser.packetSrc.ip := setByte acc.parser.packetSrc.ip k b }
  let totalLength (k : Nat) : Regs :=
    { acc with parser.ipTotalLength := setByte acc.parser.ipTotalLength k b }
  let notOk : Regs := { acc with parser.ipOk := false }
  match s.parser.index.toNat with
  | 0 => { acc with parser.ipOk := b == 0x45 }
  | 2 => totalLength 1
  | 3 => totalLength 0
  | 6 => if b &&& 0x3f ≠ 0x00 then notOk else acc
  | 7 => if b ≠ 0x00 then notOk else acc
  | 9 => if b ≠ 0x11 then notOk else acc
  | 12 => srcIp 3
  | 13 => srcIp 2
  | 14 => srcIp 1
  | 15 => srcIp 0
  | 16 => dstIp acc
  | 17 => dstIp acc
  | 18 => dstIp acc
  | 19 => dstIp acc
  | _ => acc

def ipHeaderByte (p : Params) (s acc : Regs) (b : UInt8) : Regs :=
  let q := s.parser
  let acc := ipField p s acc b
  if q.index = 19 then
    if !q.ipOk || q.ipTotalLength < 28 ||
        !((q.dstIpMatch && b == ipByte p.localIp 3) || (q.dstIpBcast && b == 0xff) ||
          (q.dstIpSubnetBcast && b == ipByte p.subnetBroadcastIp 3)) then dropPacket acc
    else
      { acc with diag.debugDstMacAccepted := true, parser.state := .udp, parser.index := 0 }
  else { acc with parser.index := q.index + 1 }

/-- The registers that a byte of the UDP header sets. -/
def udpField (p : Params) (s acc : Regs) (b : UInt8) : Regs :=
  let noMatch : Regs := { acc with parser.udpPortMatch := false }
  let srcPort (k : Nat) : Regs :=
    { acc with parser.packetSrc.port := setByte acc.parser.packetSrc.port k b }
  let udpLength (k : Nat) : Regs :=
    { acc with parser.udpLength := setByte acc.parser.udpLength k b }
  match s.parser.index.toNat with
  | 0 => srcPort 1
  | 1 => srcPort 0
  | 2 => if b ≠ byteOf p.localPort 1 then noMatch else acc
  | 3 =>
    if b ≠ byteOf p.localPort 0 then noMatch
    else if s.parser.udpPortMatch then { acc with diag.debugEthAccepted := true }
    else acc
  | 4 => udpLength 1
  | 5 => udpLength 0
  | _ => acc

def udpByte (p : Params) (s acc : Regs) (b : UInt8) : Regs :=
  let q := s.parser
  let acc := udpField p s acc b
  if q.index = 7 then
    let acc := if 8 ≤ q.udpLength then { acc with diag.debugIpAccepted := true } else acc
    if !q.udpPortMatch || q.udpLength < 8 || q.udpLength > q.ipTotalLength - 20 then
      dropPacket acc
    else
      let acc := { acc with parser.payloadRemaining := q.udpLength - 8, parser.payloadLen := 0 }
      let acc :=
        if q.udpLength = 8 then
          { acc with remote := q.packetSrc, diag.packetSeen := true, parser.state := .drop }
        else { acc with parser.state := .payload }
      { acc with parser.index := 0 }
  else { acc with parser.index := q.index + 1 }

/-- The payload is complete: the buffer is handed to the output stage, and the next payload
goes to the other one if that is free. -/
def packetComplete (s acc : Regs) : Regs :=
  let w := s.writeBuf
  let acc :=
    { acc with
      parser.state := .drop
      remote := s.parser.packetSrc
      bufs := Function.update acc.bufs w
        { acc.bufs w with len := s.parser.payloadLen + 1, pending := true }
      diag.packetSeen := true }
  if !bufBusy s (!w) then { acc with writeBuf := !w } else acc

def payloadByte (p : Params) (s acc : Regs) (b : UInt8) : Regs :=
  let q := s.parser
  let w := s.writeBuf
  if q.payloadRemaining ≠ 0 then
    if q.payloadLen.toNat < p.maxPayloadBytes then
      let acc :=
        { acc with
          bufs := Function.update acc.bufs w
            { acc.bufs w with mem := Function.update (acc.bufs w).mem q.payloadLen.toNat b }
          parser.payloadLen := q.payloadLen + 1
          parser.payloadRemaining := q.payloadRemaining - 1 }
      if q.payloadRemaining = 1 then packetComplete s acc else acc
    else dropPacket { acc with diag.parserError := true }
  else acc

def byteStep (p : Params) (s acc : Regs) (b : UInt8) : Regs :=
  match s.parser.state with
  | .eth => ethByte p s acc b
  | .ip => ipHeaderByte p s acc b
  | .udp => udpByte p s acc b
  | .payload => payloadByte p s acc b
  | .drop => acc
  | .idle => { acc with parser.state := .idle }

def step (p : Params) (s : Regs) (i : Pins) : Regs :=
  if !i.rstN then reset s
  else
    let acc :=
      { s with
        diag.packetSeen := false
        diag.packetDropped := false
        diag.parserError := false }
    let acc := outputStep s acc i
    let acc := if i.rxFrameStart then startStep s acc else acc
    if i.rxFrameEnd then endStep s acc i
    else if i.rxByteValid then byteStep p s acc i.rxByte
    else acc

/-- What the consumer of the payload stream takes in a cycle. -/
def accepted (s : Regs) (i : Pins) : List AxisByte :=
  if s.out.tvalid && i.mPayloadTready then [⟨s.out.tdata, s.out.tlast⟩] else []

end FpgaHashJoin.UdpIpv4Rx
