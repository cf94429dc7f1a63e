import FpgaHashJoin.Rtl.TxFrame

/-!
# The frames of the transmit framer

`udp_ipv4_tx` emits exactly the Ethernet frames of the payloads that it takes, whatever gaps the
payloads have and whenever the other side stalls.

`Framing` relates the registers to the history of a run. While a frame goes out it says which
byte is on the pins, and that the CRC register has taken the bytes before it.
-/

namespace FpgaHashJoin.UdpIpv4Tx

open Clocked PacketStream Checksums

/-! ## The history of a run -/

inductive TxEv where
  /-- A payload byte is handed over, with this endpoint on the pins. -/
  | payload (x : AxisByte) (e : Endpoint)
  /-- A byte of a frame is handed over. -/
  | out (x : AxisByte)
  deriving DecidableEq

def txEvents (p : Params) (s : Regs) (i : Pins) : List TxEv :=
  if !i.rstN then []
  else
    (if payloadInputFire p s i then [.payload ⟨i.sPayloadTdata, i.sPayloadTlast⟩ i.endpoint] else []) ++
    if s.mFrameTvalid && i.mFrameTready then [.out ⟨s.mFrameTdata, s.mFrameTlast⟩] else []

def taken (h : List TxEv) : List (AxisByte × Endpoint) :=
  h.filterMap fun
    | .payload x e => some (x, e)
    | _ => none

def emitted (h : List TxEv) : List AxisByte :=
  h.filterMap fun
    | .out x => some x
    | _ => none

theorem taken_append (h h' : List TxEv) : taken (h ++ h') = taken h ++ taken h' :=
  List.filterMap_append

theorem emitted_append (h h' : List TxEv) : emitted (h ++ h') = emitted h ++ emitted h' :=
  List.filterMap_append

def endsPacket (x : AxisByte × Endpoint) : Bool := x.1.last

/-- The payload of a packet. -/
def dataOf (q : List (AxisByte × Endpoint)) : List UInt8 := q.map fun x => x.1.data

/-- The endpoint at the first and the MAC address at the last byte of a packet. -/
def Addressed (q : List (AxisByte × Endpoint)) (e : Endpoint) (mac : BitVec 48) : Prop :=
  q.head?.map Prod.snd = some e ∧ q.getLast?.map (fun x => x.2.mac) = some mac

/-- The bytes that the buffer has of a packet. A buffer without room stores nothing, but the
first byte of a packet is taken all the same. -/
structure Keeps (p : Params) (q : List (AxisByte × Endpoint)) (bs : List UInt8) : Prop where
  length : bs.length = q.length
  data : 0 < p.maxPayloadBytes → bs = dataOf q

/-- The packet and the frame that has been made of it. -/
def Framed (p : Params) (q : List (AxisByte × Endpoint)) (f : List AxisByte) : Prop :=
  IsPacket endsPacket q ∧ q.length ≤ max 1 p.maxPayloadBytes ∧
    ∃ e mac bs, Addressed q e mac ∧ Keeps p q bs ∧ f = flagged (sentFrame p e mac bs)

/-! ## The registers and the history -/

/-- The bytes `q` of an open packet have been taken, and the buffer has `bs` of them. -/
structure Receiving (p : Params) (s : Regs) (q : List (AxisByte × Endpoint)) (bs : List UInt8) :
    Prop where
  quiet : ∀ x ∈ q, endsPacket x = false
  address : q.head?.map Prod.snd = some s.endpoint
  kept : Keeps p q bs
  payload : HoldsPayload s bs
  room : q.length ≤ max 1 p.maxPayloadBytes
  index : s.sendIndex = 0
  crc : s.crcState = crcRegister []

/-- The frame of the payload `bs` is going out: `cur` has been handed over, and the next byte is
on the pins. -/
structure Sending (p : Params) (s : Regs) (mac : BitVec 48) (bs : List UInt8)
    (cur : List AxisByte) : Prop where
  valid : s.mFrameTvalid = true
  payload : HoldsPayload s bs
  dataLen : s.dataLenNoFcs.toNat = max 60 (42 + bs.length)
  total : s.totalLenWithFcs.toNat = max 60 (42 + bs.length) + 4
  sent : cur = (flagged (sentFrame p s.endpoint mac bs)).take s.sendIndex.toNat
  next : (sentFrame p s.endpoint mac bs)[s.sendIndex.toNat]? = some s.mFrameTdata
  last : s.mFrameTlast = (s.sendIndex.toNat + 1 == max 60 (42 + bs.length) + 4)
  crc : s.crcState = crcRegister ((sentData p s.endpoint mac bs).take s.sendIndex.toNat)
  fcs : s.dataLenNoFcs.toNat ≤ s.sendIndex.toNat →
    s.fcsLatched = crc32 (sentData p s.endpoint mac bs)

/-- The packet that is open: `T` has been taken and `ds` are the packets before it. -/
def FrameOpen (p : Params) (s : Regs) (ds : List (List (AxisByte × Endpoint)))
    (T : List (AxisByte × Endpoint)) (cur : List AxisByte) : Prop :=
  match s.state with
  | .idle => T = ds.flatten ∧ cur = [] ∧ s.mFrameTvalid = false
  | .recv => ∃ q bs, T = ds.flatten ++ q ∧ cur = [] ∧ s.mFrameTvalid = false ∧ Receiving p s q bs
  | .send => ∃ q mac bs, T = ds.flatten ++ q ∧ IsPacket endsPacket q ∧
      q.length ≤ max 1 p.maxPayloadBytes ∧ Addressed q s.endpoint mac ∧ Keeps p q bs ∧
      Sending p s mac bs cur

/-- The history is what the registers have made of it. -/
def Framing (p : Params) (s : Regs) (h : List TxEv) : Prop :=
  ∃ ds done cur, emitted h = done.flatten ++ cur ∧ List.Forall₂ (Framed p) ds done ∧
    FrameOpen p s ds (taken h) cur

section Framing

variable {p : Params} {s : Regs} {i : Pins} {h : List TxEv} {q : List (AxisByte × Endpoint)}
  {bs : List UInt8} {mac : BitVec 48} {cur : List AxisByte}

theorem dataOf_append (q q' : List (AxisByte × Endpoint)) : dataOf (q ++ q') = dataOf q ++ dataOf q' :=
  List.map_append

/-- The first byte of a packet is stored, if there is room for it. -/
theorem HoldsPayload.first (p : Params) (s : Regs) (i : Pins) :
    HoldsPayload (latched p s i) [(latched p s i).payloadMem 0] where
  len := rfl
  mem := by
    intro j b hb
    cases j with
    | zero => exact Option.some.inj hb
    | succ j => cases hb
  bound := by
    rw [List.length_singleton]
    norm_num

theorem Keeps.first (p : Params) (s : Regs) (i : Pins) :
    Keeps p [(⟨i.sPayloadTdata, i.sPayloadTlast⟩, i.endpoint)] [(latched p s i).payloadMem 0] where
  length := rfl
  data hpos := by
    have hmem : (latched p s i).payloadMem = Function.update s.payloadMem 0 i.sPayloadTdata :=
      if_pos hpos
    rw [hmem, Function.update_self]
    rfl

theorem Keeps.more (hk : Keeps p q bs) (x : AxisByte × Endpoint) :
    Keeps p (q ++ [x]) (bs ++ [x.1.data]) where
  length := by
    rw [List.length_append, List.length_append, hk.length, List.length_singleton,
      List.length_singleton]
  data hpos := by
    rw [hk.data hpos, dataOf_append]
    rfl

/-- A further byte is stored. -/
theorem HoldsPayload.more (h : HoldsPayload s bs) (hroom : bs.length + 1 + 46 < 2 ^ 16) :
    HoldsPayload (stored s i) (bs ++ [i.sPayloadTdata]) where
  len := by
    rw [List.length_append, List.length_singleton, BitVec.ofNat_add, ← h.len]
    rfl
  mem := by
    have hlen : s.payloadLen.toNat = bs.length := by
      rw [h.len, BitVec.toNat_ofNat]
      exact Nat.mod_eq_of_lt (by omega)
    intro j b hb
    change Function.update s.payloadMem s.payloadLen.toNat i.sPayloadTdata j = b
    rw [hlen]
    by_cases hj : j = bs.length
    · subst hj
      rw [List.getElem?_concat_length] at hb
      rw [Function.update_self]
      exact Option.some.inj hb
    · have hlt : j < bs.length := by
        have hbound := (List.getElem?_eq_some_iff.mp hb).1
        rw [List.length_append, List.length_singleton] at hbound
        omega
      rw [List.getElem?_append_left hlt] at hb
      rw [Function.update_of_ne hj]
      exact h.mem j b hb
  bound := by
    rw [List.length_append, List.length_singleton]
    exact hroom

/-- The frame begins. -/
theorem Sending.start (hpayload : HoldsPayload s bs) (hindex : s.sendIndex = 0)
    (hcrc : s.crcState = crcRegister []) {dataLen : BitVec 16}
    (hlen : dataLen.toNat = max 60 (42 + bs.length)) :
    Sending p (startSend s i dataLen) i.remoteMac bs [] := by
  have hbound := hpayload.bound
  have hzero : (startSend s i dataLen).sendIndex.toNat = 0 := by
    change s.sendIndex.toNat = 0
    rw [hindex]
    rfl
  refine ⟨rfl, ⟨hpayload.len, hpayload.mem, hbound⟩, hlen, ?_, ?_, ?_, ?_, ?_, ?_⟩
  · change (dataLen + 4).toNat = _
    have hfour : (4 : BitVec 16).toNat = 4 := rfl
    rw [BitVec.toNat_add, hlen, hfour]
    exact Nat.mod_eq_of_lt (by omega)
  · rw [hzero]
    rfl
  · rw [hzero]
    rfl
  · rw [hzero]
    exact (beq_false_of_ne (by omega)).symm
  · rw [hzero]
    exact hcrc
  · intro hle
    rw [hzero] at hle
    change dataLen.toNat ≤ 0 at hle
    omega

/-- The registers after a byte that is not the last one of the frame has been handed over. -/
def advanced (p : Params) (s : Regs) : Regs :=
  let crc := crc32Next s.crcState s.mFrameTdata
  { sendNext p s with
    crcState := if s.sendIndex < s.dataLenNoFcs then crc else s.crcState
    fcsLatched :=
      if s.sendIndex < s.dataLenNoFcs ∧ s.sendIndex = s.dataLenNoFcs - 1 then ~~~ crc
      else s.fcsLatched }

theorem sendStep_advanced (hvalid : s.mFrameTvalid = true) (hready : i.mFrameTready = true)
    (hlast : s.sendIndex ≠ s.totalLenWithFcs - 1) : sendStep p s i = advanced p s := by
  rw [sendStep, if_pos (by rw [hvalid, hready]; rfl)]
  dsimp only
  rw [if_neg hlast]
  rfl

/-- The CRC register takes the byte that is handed over, as long as it belongs to the data. -/
theorem Sending.crc_next (hs : Sending p s mac bs cur) :
    (advanced p s).crcState = crcRegister ((sentData p s.endpoint mac bs).take (s.sendIndex.toNat + 1)) := by
  have hlen : (sentData p s.endpoint mac bs).length = s.dataLenNoFcs.toNat := by
    rw [length_sentData, hs.dataLen]
  have hcrc : (advanced p s).crcState = if s.sendIndex < s.dataLenNoFcs then
      crc32Next s.crcState s.mFrameTdata else s.crcState := rfl
  rw [hcrc]
  by_cases hdata : s.sendIndex.toNat < s.dataLenNoFcs.toNat
  · have hbyte : (sentData p s.endpoint mac bs)[s.sendIndex.toNat]? = some s.mFrameTdata := by
      rw [← hs.next, sentFrame, List.getElem?_append_left (by omega)]
    rw [if_pos (BitVec.lt_def.mpr hdata), hs.crc, crc32Next_eq, List.take_add_one, hbyte]
    rfl
  · rw [if_neg (mt BitVec.lt_def.mp hdata), hs.crc, List.take_of_length_le (by omega),
      List.take_of_length_le (by omega)]

/-- With the last byte of the data the FCS is complete. -/
theorem Sending.fcs_next (hs : Sending p s mac bs cur)
    (hle : s.dataLenNoFcs.toNat ≤ s.sendIndex.toNat + 1) :
    (advanced p s).fcsLatched = crc32 (sentData p s.endpoint mac bs) := by
  have hlen : (sentData p s.endpoint mac bs).length = s.dataLenNoFcs.toNat := by
    rw [length_sentData, hs.dataLen]
  have hdataLen := hs.dataLen
  have hfcs : (advanced p s).fcsLatched =
      if s.sendIndex < s.dataLenNoFcs ∧ s.sendIndex = s.dataLenNoFcs - 1 then
        ~~~ crc32Next s.crcState s.mFrameTdata else s.fcsLatched := rfl
  rw [hfcs]
  by_cases hlast : s.sendIndex.toNat + 1 = s.dataLenNoFcs.toNat
  · have hcond : s.sendIndex < s.dataLenNoFcs ∧ s.sendIndex = s.dataLenNoFcs - 1 := by
      constructor <;> bv_omega
    have hcrc := hs.crc_next
    rw [List.take_of_length_le (by omega)] at hcrc
    have hnext : (advanced p s).crcState = crc32Next s.crcState s.mFrameTdata := if_pos hcond.1
    rw [if_pos hcond, ← hnext, hcrc]
    rfl
  · have hcond : ¬ (s.sendIndex < s.dataLenNoFcs ∧ s.sendIndex = s.dataLenNoFcs - 1) := by
      rintro ⟨hlt, -⟩
      rw [BitVec.lt_def] at hlt
      omega
    rw [if_neg hcond]
    exact hs.fcs (by omega)

/-- The next byte of the frame. -/
theorem Sending.data_next (hs : Sending p s mac bs cur)
    (hmore : s.sendIndex.toNat + 1 < max 60 (42 + bs.length) + 4) :
    (sentFrame p s.endpoint mac bs)[s.sendIndex.toNat + 1]? = some (advanced p s).mFrameTdata := by
  have hbound := hs.payload.bound
  have hdataLen := hs.dataLen
  have hsucc : (s.sendIndex + 1).toNat = s.sendIndex.toNat + 1 := by bv_omega
  have hdata : (advanced p s).mFrameTdata =
      if s.sendIndex + 1 < s.dataLenNoFcs then frameDataByte p s (s.sendIndex + 1)
      else if s.sendIndex = s.dataLenNoFcs - 1 then
        fcsByte (~~~ crc32Next s.crcState s.mFrameTdata) 0
      else fcsByte s.fcsLatched ((s.sendIndex + 1 - s.dataLenNoFcs).setWidth 2) := rfl
  rw [hdata]
  by_cases hin : s.sendIndex.toNat + 1 < s.dataLenNoFcs.toNat
  · -- a byte of the data
    have hlt : s.sendIndex + 1 < s.dataLenNoFcs := by
      rw [BitVec.lt_def, hsucc]
      exact hin
    have hidx : s.sendIndex + 1 = BitVec.ofNat 16 (s.sendIndex.toNat + 1) := by
      rw [← hsucc, BitVec.ofNat_toNat, BitVec.setWidth_eq]
    rw [if_pos hlt, hidx, ← frameDataByte_eq hs.payload (by omega), sentFrame,
      List.getElem?_append_left (by rw [length_sentData]; omega), getElem?_sentData (by omega)]
  · -- a byte of the FCS
    have hlt : ¬ s.sendIndex + 1 < s.dataLenNoFcs := by
      rw [BitVec.lt_def, hsucc]
      exact hin
    have hfcs := hs.fcs_next (by omega)
    obtain ⟨k, hk⟩ := Nat.exists_eq_add_of_le (not_lt.mp hin)
    have hk4 : k < 4 := by omega
    rw [if_neg hlt, hk, hdataLen, getElem?_sentFrame_fcs hk4, ← hfcs]
    by_cases hfirst : s.sendIndex.toNat + 1 = s.dataLenNoFcs.toNat
    · obtain rfl : k = 0 := by omega
      have hcond : s.sendIndex < s.dataLenNoFcs ∧ s.sendIndex = s.dataLenNoFcs - 1 := by
        constructor <;> bv_omega
      rw [if_pos hcond.2]
      have hlatched : (advanced p s).fcsLatched = ~~~ crc32Next s.crcState s.mFrameTdata := if_pos hcond
      rw [hlatched]
      rfl
    · have hne : s.sendIndex ≠ s.dataLenNoFcs - 1 := by bv_omega
      have hcond : ¬ (s.sendIndex < s.dataLenNoFcs ∧ s.sendIndex = s.dataLenNoFcs - 1) :=
        fun hc => hne hc.2
      have hlatched : (advanced p s).fcsLatched = s.fcsLatched := if_neg hcond
      have hidx : (s.sendIndex + 1 - s.dataLenNoFcs).setWidth 2 = BitVec.ofNat 2 k := by
        have hsub : s.sendIndex + 1 - s.dataLenNoFcs = BitVec.ofNat 16 k := by bv_omega
        rw [hsub, BitVec.setWidth_ofNat_of_le (by decide)]
      rw [if_neg hne, hlatched, hidx]

/-- The frame goes on. -/
theorem Sending.more (hs : Sending p s mac bs cur) (hlast : s.sendIndex ≠ s.totalLenWithFcs - 1) :
    Sending p (advanced p s) mac bs (cur ++ [⟨s.mFrameTdata, s.mFrameTlast⟩]) := by
  have hbound := hs.payload.bound
  have htotal := hs.total
  have hin : s.sendIndex.toNat < max 60 (42 + bs.length) + 4 := by
    have hlt := (List.getElem?_eq_some_iff.mp hs.next).1
    rw [length_sentFrame] at hlt
    exact hlt
  have hmore : s.sendIndex.toNat + 1 < max 60 (42 + bs.length) + 4 := by
    by_contra hcon
    exact hlast (by bv_omega)
  have hsucc : (advanced p s).sendIndex.toNat = s.sendIndex.toNat + 1 := by
    change (s.sendIndex + 1).toNat = _
    bv_omega
  refine ⟨hs.valid, ⟨hs.payload.len, hs.payload.mem, hbound⟩, hs.dataLen, htotal, ?_, ?_, ?_, ?_, ?_⟩
  · rw [hsucc, hs.sent, hs.last]
    have htake := take_succ_flagged hs.next
    rw [length_sentFrame] at htake
    exact htake.symm
  · rw [hsucc]
    exact hs.data_next hmore
  · rw [hsucc]
    have hflag : (advanced p s).mFrameTlast = (s.sendIndex + 1 == s.totalLenWithFcs - 1) := rfl
    rw [hflag, Bool.eq_iff_iff, beq_iff_eq, beq_iff_eq]
    constructor
    · intro heq
      bv_omega
    · intro heq
      bv_omega
  · rw [hsucc]
    exact hs.crc_next
  · intro hle
    rw [hsucc] at hle
    exact hs.fcs_next hle

/-- The frame is complete with its last byte. -/
theorem Sending.complete (hs : Sending p s mac bs cur)
    (hlast : s.sendIndex = s.totalLenWithFcs - 1) :
    cur ++ [⟨s.mFrameTdata, s.mFrameTlast⟩] = flagged (sentFrame p s.endpoint mac bs) := by
  have hbound := hs.payload.bound
  have htotal := hs.total
  have hidx : s.sendIndex.toNat + 1 = max 60 (42 + bs.length) + 4 := by bv_omega
  have htake := take_succ_flagged hs.next
  rw [length_sentFrame] at htake
  rw [hs.sent, hs.last, ← htake, List.take_of_length_le]
  rw [length_flagged, length_sentFrame, hidx]

/-- The registers that matter while a frame goes out. -/
theorem Sending.of_packetSent (hs : Sending p s mac bs cur) :
    Sending p { s with packetSent := false } mac bs cur :=
  ⟨hs.valid, ⟨hs.payload.len, hs.payload.mem, hs.payload.bound⟩, hs.dataLen, hs.total, hs.sent,
    hs.next, hs.last, hs.crc, hs.fcs⟩

theorem txEvents_fire (hrst : i.rstN = true) (hfire : payloadInputFire p s i = true)
    (hvalid : s.mFrameTvalid = false) :
    txEvents p s i = [.payload ⟨i.sPayloadTdata, i.sPayloadTlast⟩ i.endpoint] := by
  simp [txEvents, hrst, hfire, hvalid]

theorem txEvents_quiet (hfire : payloadInputFire p s i = false) (hvalid : s.mFrameTvalid = false) :
    txEvents p s i = [] := by
  simp [txEvents, hfire, hvalid]

theorem txEvents_send (hs : s.state = .send) (hrst : i.rstN = true) (hvalid : s.mFrameTvalid = true) :
    txEvents p s i = if i.mFrameTready then [.out ⟨s.mFrameTdata, s.mFrameTlast⟩] else [] := by
  simp [txEvents, hrst, fire_send hs, hvalid]

/-- Nothing is handed over in a cycle. -/
theorem Framing.quiet {s' : Regs} (hf : Framing p s h) (hevents : txEvents p s i = [])
    (hopen : ∀ ds cur, FrameOpen p s ds (taken h) cur → FrameOpen p s' ds (taken h) cur) :
    Framing p s' (h ++ txEvents p s i) := by
  obtain ⟨ds, done, cur, hout, hframed, hold⟩ := hf
  rw [hevents, List.append_nil]
  exact ⟨ds, done, cur, hout, hframed, hopen ds cur hold⟩

/-- A payload byte is taken in a cycle. -/
theorem Framing.take {s' : Regs} (hf : Framing p s h) {x : AxisByte} {e : Endpoint}
    (hevents : txEvents p s i = [.payload x e])
    (hopen : ∀ ds cur, FrameOpen p s ds (taken h) cur →
      FrameOpen p s' ds (taken h ++ [(x, e)]) cur) :
    Framing p s' (h ++ txEvents p s i) := by
  obtain ⟨ds, done, cur, hout, hframed, hold⟩ := hf
  rw [hevents]
  refine ⟨ds, done, cur, ?_, hframed, ?_⟩
  · rw [emitted_append, hout]
    exact List.append_nil _
  · rw [taken_append]
    exact hopen ds cur hold

theorem Framing.idle_valid (hs : s.state = .idle) (hf : Framing p s h) : s.mFrameTvalid = false := by
  obtain ⟨ds, done, cur, -, -, hopen⟩ := hf
  rw [FrameOpen, hs] at hopen
  exact hopen.2.2

theorem Framing.recv_valid (hs : s.state = .recv) (hf : Framing p s h) : s.mFrameTvalid = false := by
  obtain ⟨ds, done, cur, -, -, hopen⟩ := hf
  rw [FrameOpen, hs] at hopen
  obtain ⟨q, bs, -, -, hvalid, -⟩ := hopen
  exact hvalid

theorem Framing.idleStep (hs : s.state = .idle) (hrst : i.rstN = true) (hf : Framing p s h) :
    Framing p (step p s i) (h ++ txEvents p s i) := by
  have hvalid := hf.idle_valid hs
  let s' : Regs := { s with packetSent := false }
  rw [step_idle hrst hs]
  cases hv : i.sPayloadTvalid with
  | false =>
    refine hf.quiet (txEvents_quiet ((fire_idle hs).trans hv) hvalid) fun ds cur hopen => ?_
    rw [FrameOpen, hs] at hopen
    rw [idleStep_quiet hv, FrameOpen, show (cleared s').state = .idle from hs]
    exact ⟨hopen.1, hopen.2.1, rfl⟩
  | true =>
    refine hf.take (txEvents_fire hrst ((fire_idle hs).trans hv) hvalid) fun ds cur hopen => ?_
    rw [FrameOpen, hs] at hopen
    obtain ⟨hT, rfl, -⟩ := hopen
    have hpayload := HoldsPayload.first p s' i
    have hkept := Keeps.first p s' i
    have hroom : 1 ≤ max 1 p.maxPayloadBytes := le_max_left 1 _
    cases hlast : i.sPayloadTlast with
    | false =>
      rw [hlast] at hkept
      rw [idleStep_first hv hlast, hT]
      refine ⟨[_], _, rfl, rfl, rfl, ?_, rfl, hkept,
        ⟨hpayload.len, hpayload.mem, hpayload.bound⟩, hroom, rfl, rfl⟩
      intro x hx
      rw [List.mem_singleton.mp hx]
      rfl
    | true =>
      rw [hlast] at hkept
      rw [idleStep_only hv hlast, hT]
      exact ⟨[_], i.remoteMac, _, rfl, IsPacket.single rfl, hroom, ⟨rfl, rfl⟩, hkept,
        Sending.start hpayload rfl rfl rfl⟩

theorem Receiving.payloadLen (hr : Receiving p s q bs) : s.payloadLen.toNat = q.length := by
  have hbound := hr.payload.bound
  rw [hr.payload.len, BitVec.toNat_ofNat, Nat.mod_eq_of_lt (by omega), hr.kept.length]

theorem Receiving.more (hr : Receiving p s q bs) (hmax : p.maxPayloadBytes + 46 < 2 ^ 16)
    (hroom : q.length < p.maxPayloadBytes) (hlast : i.sPayloadTlast = false) :
    Receiving p (stored s i) (q ++ [(⟨i.sPayloadTdata, i.sPayloadTlast⟩, i.endpoint)])
      (bs ++ [i.sPayloadTdata]) := by
  have hlen := hr.kept.length
  refine ⟨?_, ?_, hr.kept.more _, hr.payload.more (by omega), ?_, hr.index, hr.crc⟩
  · intro x hx
    rcases List.mem_append.mp hx with hx | hx
    · exact hr.quiet x hx
    · rw [List.mem_singleton.mp hx]
      exact hlast
  · cases q with
    | nil => cases hr.address
    | cons x q => exact hr.address
  · rw [List.length_append, List.length_singleton]
    exact hroom.trans_le (le_max_right 1 _)

/-- The last byte of the packet starts the frame. -/
theorem Receiving.start (hr : Receiving p s q bs) (hmax : p.maxPayloadBytes + 46 < 2 ^ 16)
    (hroom : q.length < p.maxPayloadBytes) :
    Sending p (startSend (stored s i) i
        (if headerBytes + s.payloadLen + 1 < minFrameNoFcs then minFrameNoFcs
          else headerBytes + s.payloadLen + 1)) i.remoteMac (bs ++ [i.sPayloadTdata]) [] := by
  have hlen := hr.kept.length
  have hnat := hr.payloadLen
  refine Sending.start (hr.payload.more (by omega)) hr.index hr.crc ?_
  rw [List.length_append, headerBytes, minFrameNoFcs, List.length_singleton]
  split <;> bv_omega

theorem Framing.recvStep (hmax : p.maxPayloadBytes + 46 < 2 ^ 16) (hs : s.state = .recv)
    (hrst : i.rstN = true) (hf : Framing p s h) :
    Framing p (step p s i) (h ++ txEvents p s i) := by
  have hvalid := hf.recv_valid hs
  let s' : Regs := { s with packetSent := false }
  rw [step_recv hrst hs]
  cases hfire : payloadInputFire p s i with
  | false =>
    obtain ⟨overflow, hsame⟩ := recvStep_quiet (s := s') hfire
    refine hf.quiet (txEvents_quiet hfire hvalid) fun ds cur hopen => ?_
    rw [FrameOpen, hs] at hopen
    obtain ⟨q, bs, hT, hcur, -, hr⟩ := hopen
    rw [hsame, FrameOpen, show ({ s' with payloadOverflow := overflow } : Regs).state = .recv from hs]
    exact ⟨q, bs, hT, hcur, hvalid, hr.quiet, hr.address, hr.kept,
      ⟨hr.payload.len, hr.payload.mem, hr.payload.bound⟩, hr.room, hr.index, hr.crc⟩
  | true =>
    have hfire' : payloadInputFire p s' i = true := hfire
    refine hf.take (txEvents_fire hrst hfire hvalid) fun ds cur hopen => ?_
    rw [FrameOpen, hs] at hopen
    obtain ⟨q, bs, hT, rfl, -, hr⟩ := hopen
    have hr' : Receiving p s' q bs := ⟨hr.quiet, hr.address, hr.kept,
      ⟨hr.payload.len, hr.payload.mem, hr.payload.bound⟩, hr.room, hr.index, hr.crc⟩
    have hroom : q.length < p.maxPayloadBytes := by
      rw [← hr.payloadLen]
      exact ((fire_iff_recv hs).mp hfire).2
    rw [hT, List.append_assoc]
    cases hlast : i.sPayloadTlast with
    | false =>
      have hmore := hr'.more hmax hroom hlast
      rw [hlast] at hmore
      rw [recvStep_next hfire' hlast, FrameOpen, show (stored s' i).state = .recv from hs]
      exact ⟨_, _, rfl, rfl, hvalid, hmore⟩
    | true =>
      rw [recvStep_last hfire' hlast]
      refine ⟨_, i.remoteMac, _, rfl, ?_, ?_, ⟨?_, ?_⟩, hr.kept.more _, hr'.start hmax hroom⟩
      · exact ⟨q, _, rfl, rfl, hr.quiet⟩
      · rw [List.length_append, List.length_singleton]
        exact hroom.trans_le (le_max_right 1 _)
      · cases q with
        | nil => cases hr.address
        | cons x q => exact hr.address
      · rw [List.getLast?_concat]
        rfl

theorem Framing.sendStep (hs : s.state = .send) (hrst : i.rstN = true) (hf : Framing p s h) :
    Framing p (step p s i) (h ++ txEvents p s i) := by
  obtain ⟨ds, done, cur, hout, hframed, hopen⟩ := hf
  rw [FrameOpen, hs] at hopen
  obtain ⟨q, mac, bs, hT, hq, hroom, haddr, hkept, hsend⟩ := hopen
  let s' : Regs := { s with packetSent := false }
  have hsend' : Sending p s' mac bs cur := hsend.of_packetSent
  rw [step_send hrst hs, txEvents_send hs hrst hsend.valid]
  cases hready : i.mFrameTready with
  | false =>
    have hsame : UdpIpv4Tx.sendStep p s' i = s' := sendStep_stalled hready
    rw [if_neg Bool.false_ne_true, List.append_nil, hsame]
    refine ⟨ds, done, cur, hout, hframed, ?_⟩
    rw [FrameOpen, show s'.state = .send from hs]
    exact ⟨q, mac, bs, hT, hq, hroom, haddr, hkept, hsend'⟩
  | true =>
    rw [if_pos rfl]
    by_cases hlast : s.sendIndex = s.totalLenWithFcs - 1
    · obtain ⟨crc, fcs, hnext⟩ := sendStep_final (p := p) (s := s') hsend.valid hready hlast
      rw [hnext]
      refine ⟨ds ++ [q], done ++ [flagged (sentFrame p s.endpoint mac bs)], [], ?_, ?_, ?_⟩
      · rw [emitted_append, hout, ← hsend.complete hlast]
        simp [emitted]
      · exact List.rel_append hframed (.cons ⟨hq, hroom, _, _, _, haddr, hkept, rfl⟩ .nil)
      · rw [taken_append, hT]
        simp [FrameOpen, taken]
    · have hnext := sendStep_advanced (p := p) (s := s') hsend.valid hready hlast
      rw [hnext]
      refine ⟨ds, done, cur ++ [⟨s.mFrameTdata, s.mFrameTlast⟩], ?_, hframed, ?_⟩
      · rw [emitted_append, hout, List.append_assoc]
        rfl
      · rw [taken_append, FrameOpen, show (advanced p s').state = .send from hs]
        exact ⟨q, mac, bs, (List.append_nil _).trans hT, hq, hroom, haddr, hkept, hsend'.more hlast⟩

/-- **One cycle.** -/
theorem Framing.step (hmax : p.maxPayloadBytes + 46 < 2 ^ 16) (hrst : i.rstN = true)
    (hf : Framing p s h) : Framing p (step p s i) (h ++ txEvents p s i) := by
  cases hs : s.state with
  | idle => exact hf.idleStep hs hrst
  | recv => exact hf.recvStep hmax hs hrst
  | send => exact hf.sendStep hs hrst

/-- **Whole runs after a reset.** -/
theorem framing_run (hmax : p.maxPayloadBytes + 46 < 2 ^ 16) (s₀ : Regs) {i₀ : Pins}
    (hreset : i₀.rstN = false) {cycles : List Pins} (hrst : ∀ i ∈ cycles, i.rstN = true) :
    Framing p (run (UdpIpv4Tx.step p) (UdpIpv4Tx.step p s₀ i₀) cycles)
      (trace (UdpIpv4Tx.step p) (txEvents p) (UdpIpv4Tx.step p s₀ i₀) cycles) := by
  have hstart : Framing p (UdpIpv4Tx.step p s₀ i₀) [] := by
    have hs : UdpIpv4Tx.step p s₀ i₀ = reset p s₀ := by simp [UdpIpv4Tx.step, hreset]
    rw [hs]
    exact ⟨[], [], [], rfl, .nil, rfl, rfl, rfl⟩
  exact invariant (fun i : Pins => i.rstN = true) (Framing p) hstart
    (fun _ _ _ hi hf => hf.step hmax hi) hrst

theorem Framed.isPacket {f : List AxisByte} (hf : Framed p q f) : IsPacket AxisByte.last f := by
  obtain ⟨-, -, e, mac, bs, -, -, rfl⟩ := hf
  exact isPacket_flagged sentFrame_ne_nil

/-- If the endpoint does not change during a packet, it is the one of the frame. -/
theorem Addressed.eq_of_const {e e' : Endpoint} (ha : Addressed q e' mac)
    (hconst : ∀ x ∈ q, x.2 = e) : e' = e ∧ mac = e.mac := by
  obtain ⟨hhead, hlast⟩ := ha
  constructor
  · obtain ⟨x, hx, rfl⟩ := Option.map_eq_some_iff.mp hhead
    exact hconst x (List.mem_of_mem_head? hx)
  · obtain ⟨x, hx, rfl⟩ := Option.map_eq_some_iff.mp hlast
    rw [hconst x (List.mem_of_getLast? hx)]

theorem exists_framed {ds : List (List (AxisByte × Endpoint))} {done : List (List AxisByte)}
    (hframed : List.Forall₂ (Framed p) ds done) {k : Nat} (hk : k < done.length) :
    ∃ q f, ds[k]? = some q ∧ done[k]? = some f ∧ Framed p q f := by
  have hk' : k < ds.length := hframed.length_eq ▸ hk
  exact ⟨ds[k], done[k], List.getElem?_eq_getElem hk', List.getElem?_eq_getElem hk,
    hframed.get hk' hk⟩

theorem isPacket_of_framed {ds : List (List (AxisByte × Endpoint))} {done : List (List AxisByte)}
    (hframed : List.Forall₂ (Framed p) ds done) :
    (∀ q ∈ ds, IsPacket endsPacket q) ∧ ∀ f ∈ done, IsPacket AxisByte.last f := by
  constructor
  · intro q hq
    obtain ⟨k, hk, rfl⟩ := List.getElem_of_mem hq
    exact (hframed.get hk (hframed.length_eq ▸ hk)).1
  · intro f hf
    obtain ⟨k, hk, rfl⟩ := List.getElem_of_mem hf
    exact (hframed.get (hframed.length_eq ▸ hk) hk).isPacket

/-- The open packet is the last one. -/
theorem FrameOpen.packets {ds : List (List (AxisByte × Endpoint))} {T : List (AxisByte × Endpoint)}
    (hopen : FrameOpen p s ds T cur) (hds : ∀ q ∈ ds, IsPacket endsPacket q) :
    ∃ rest, split endsPacket T = ds ++ rest := by
  unfold FrameOpen at hopen
  split at hopen
  · exact ⟨[], by rw [hopen.1, split_flatten hds, List.append_nil]⟩
  · obtain ⟨q, bs, hT, -⟩ := hopen
    exact ⟨_, by rw [hT, split_flatten_append hds]⟩
  · obtain ⟨q, mac, bs, hT, -⟩ := hopen
    exact ⟨_, by rw [hT, split_flatten_append hds]⟩

/-- A frame that has begun belongs to the open packet. -/
theorem FrameOpen.sending {ds : List (List (AxisByte × Endpoint))} {T : List (AxisByte × Endpoint)}
    (hopen : FrameOpen p s ds T cur) (hcur : cur ≠ []) :
    ∃ q mac bs, T = ds.flatten ++ q ∧ IsPacket endsPacket q ∧
      q.length ≤ max 1 p.maxPayloadBytes ∧ Addressed q s.endpoint mac ∧ Keeps p q bs ∧
      Sending p s mac bs cur := by
  unfold FrameOpen at hopen
  split at hopen
  · exact absurd hopen.2.1 hcur
  · obtain ⟨q, bs, -, hnil, -⟩ := hopen
    exact absurd hnil hcur
  · exact hopen

theorem Sending.index_lt (hs : Sending p s mac bs cur) :
    s.sendIndex.toNat < (sentFrame p s.endpoint mac bs).length :=
  (List.getElem?_eq_some_iff.mp hs.next).1

/-- The packets that have been taken and the frames that have been emitted. -/
theorem Framing.packets (hf : Framing p s h) {k : Nat} {f : List AxisByte}
    (hk : (split AxisByte.last (emitted h))[k]? = some f) :
    ∃ q e mac bs, (split endsPacket (taken h))[k]? = some q ∧ IsPacket endsPacket q ∧
      q.length ≤ max 1 p.maxPayloadBytes ∧ Addressed q e mac ∧ Keeps p q bs ∧
      f <+: flagged (sentFrame p e mac bs) := by
  obtain ⟨ds, done, cur, hout, hframed, hopen⟩ := hf
  obtain ⟨hds, hdone⟩ := isPacket_of_framed hframed
  rw [hout, split_flatten_append hdone] at hk
  by_cases hlt : k < done.length
  · -- a complete frame
    obtain ⟨q, f', hq, hf', hpacket, hroom, e, mac, bs, haddr, hkept, rfl⟩ :=
      exists_framed hframed hlt
    rw [List.getElem?_append_left hlt, hf'] at hk
    obtain rfl := Option.some.inj hk
    obtain ⟨rest, hsplit⟩ := hopen.packets hds
    refine ⟨q, e, mac, bs, ?_, hpacket, hroom, haddr, hkept, List.prefix_rfl⟩
    rw [hsplit, List.getElem?_append_left (List.getElem?_eq_some_iff.mp hq).1]
    exact hq
  · -- the frame that is going out
    rw [List.getElem?_append_right (not_lt.mp hlt)] at hk
    have hne : cur ≠ [] := by
      rintro rfl
      cases hk
    obtain ⟨q, mac, bs, hT, hpacket, hroom, haddr, hkept, hsend⟩ := hopen.sending hne
    have hquiet : ∀ x ∈ cur, x.last = false := by
      rw [hsend.sent]
      exact quiet_take_flagged hsend.index_lt
    rw [split_quiet hne hquiet] at hk
    obtain ⟨hzero, rfl⟩ : k - done.length = 0 ∧ cur = f := by
      cases hsub : k - done.length with
      | zero =>
        rw [hsub] at hk
        exact ⟨rfl, Option.some.inj hk⟩
      | succ n =>
        rw [hsub] at hk
        cases hk
    have hkd : k = ds.length := by
      rw [hframed.length_eq]
      omega
    refine ⟨q, s.endpoint, mac, bs, ?_, hpacket, hroom, haddr, hkept, ?_⟩
    · have hsingle : split endsPacket q = [q] := by
        have happ := split_append_of_isPacket hpacket []
        rw [List.append_nil] at happ
        exact happ
      rw [hT, split_flatten_append hds, hsingle, hkd, List.getElem?_concat_length]
    · rw [hsend.sent]
      exact List.take_prefix _ _

/-- As long as a packet waits for its frame, a byte is offered. -/
theorem Framing.offers (hf : Framing p s h)
    (hless : (emitted h).countP AxisByte.last < (taken h).countP endsPacket) :
    s.mFrameTvalid = true := by
  obtain ⟨ds, done, cur, hout, hframed, hopen⟩ := hf
  obtain ⟨hds, hdone⟩ := isPacket_of_framed hframed
  have hlen := hframed.length_eq
  rw [hout, List.countP_append, countP_flatten_of_isPacket hdone] at hless
  unfold FrameOpen at hopen
  split at hopen
  · rw [hopen.1, countP_flatten_of_isPacket hds] at hless
    omega
  · obtain ⟨q, bs, hT, -, -, hr⟩ := hopen
    rw [hT, List.countP_append, countP_flatten_of_isPacket hds, countP_of_quiet hr.quiet] at hless
    omega
  · obtain ⟨q, mac, bs, -, -, -, -, -, hsend⟩ := hopen
    exact hsend.valid

theorem Framing.send_of_valid (hf : Framing p s h) (hvalid : s.mFrameTvalid = true) :
    s.state = .send := by
  cases hs : s.state with
  | idle => exact absurd hvalid (by rw [hf.idle_valid hs]; exact Bool.false_ne_true)
  | recv => exact absurd hvalid (by rw [hf.recv_valid hs]; exact Bool.false_ne_true)
  | send => rfl

/-- A byte that is not taken stays. -/
theorem Framing.stable (hf : Framing p s h) (hrst : i.rstN = true) (hvalid : s.mFrameTvalid = true)
    (hready : i.mFrameTready = false) :
    (UdpIpv4Tx.step p s i).mFrameTvalid = true ∧
      (UdpIpv4Tx.step p s i).mFrameTdata = s.mFrameTdata ∧
      (UdpIpv4Tx.step p s i).mFrameTlast = s.mFrameTlast := by
  rw [step_send hrst (hf.send_of_valid hvalid), sendStep_stalled hready]
  exact ⟨hvalid, rfl, rfl⟩

/-- **Payload is taken** unless a frame goes out or the open packet has filled the buffer. -/
theorem Framing.takes (hf : Framing p s h) (hrst : i.rstN = true) (hv : i.sPayloadTvalid = true)
    (hvalid : s.mFrameTvalid = false) (hroom : pending endsPacket (taken h) < p.maxPayloadBytes) :
    txEvents p s i = [.payload ⟨i.sPayloadTdata, i.sPayloadTlast⟩ i.endpoint] := by
  refine txEvents_fire hrst ?_ hvalid
  obtain ⟨ds, done, cur, -, hframed, hopen⟩ := hf
  obtain ⟨hds, -⟩ := isPacket_of_framed hframed
  unfold FrameOpen at hopen
  split at hopen
  · next hs => rw [fire_idle hs, hv]
  · next hs =>
    obtain ⟨q, bs, hT, -, -, hr⟩ := hopen
    rw [hT, pending_flatten_append hds, pending_quiet hr.quiet, ← hr.payloadLen] at hroom
    exact (fire_iff_recv hs).mpr ⟨hv, hroom⟩
  · obtain ⟨q, mac, bs, -, -, -, -, -, hsend⟩ := hopen
    rw [hsend.valid] at hvalid
    cases hvalid

/-- **A frame that goes out ends** and the framer is idle again. -/
theorem Framing.ends (hf : Framing p s h) (hvalid : s.mFrameTvalid = true) {more : List Pins}
    (hrst : ∀ i ∈ more, i.rstN = true)
    (hready : max 64 (p.maxPayloadBytes + 46) ≤ more.countP Pins.mFrameTready) :
    ∃ pre, pre <+: more ∧ (run (UdpIpv4Tx.step p) s pre).state = .idle := by
  have hs := hf.send_of_valid hvalid
  obtain ⟨ds, done, cur, -, -, hopen⟩ := hf
  rw [FrameOpen, hs] at hopen
  obtain ⟨q, mac, bs, -, -, hroom, -, hkept, hsend⟩ := hopen
  have hindex := hsend.index_lt
  have htotal := hsend.total
  have hlen := hkept.length
  rw [length_sentFrame] at hindex
  have hleft : (s.totalLenWithFcs - 1 - s.sendIndex).toNat < max 64 (p.maxPayloadBytes + 46) := by
    have hsub : (s.totalLenWithFcs - 1 - s.sendIndex).toNat < s.totalLenWithFcs.toNat := by bv_omega
    omega
  obtain ⟨pre, hpre, hidle, -⟩ := send_ends hrst hs hvalid rfl (hleft.trans_le hready)
  exact ⟨pre, hpre, hidle⟩

end Framing

/-- **The frames of the transmit framer.** After a reset, whatever gaps the payloads have and
whenever the other side stalls: the frame number `k` belongs to the packet number `k`, and if
the `remote_*` inputs are constant during the packet, it is the Ethernet frame of the payload, as
far as it has been emitted, with TLAST on its last byte only. While a packet waits for its frame a byte is
offered, and it stays as it is until it is taken. The words of every IPv4 header sum up to
`0xFFFF`.

The framer goes on: a payload byte that is offered is taken, unless a frame goes out or the open
packet has filled the buffer; and a frame that goes out has ended, and the framer is idle again,
when the other side has been ready for as many cycles as the longest frame has bytes. -/
theorem frames_of_packets {p : Params} (hpos : 0 < p.maxPayloadBytes)
    (hmax : p.maxPayloadBytes + 46 < 2 ^ 16) {s₀ : Regs} {i₀ : Pins} (hreset : i₀.rstN = false)
    {cycles : List Pins} (hrst : ∀ i ∈ cycles, i.rstN = true) :
    let h := trace (step p) (txEvents p) (step p s₀ i₀) cycles
    let s := run (step p) (step p s₀ i₀) cycles
    (∀ (k : Nat) f, (split AxisByte.last (emitted h))[k]? = some f →
      ∃ q, (split endsPacket (taken h))[k]? = some q ∧ IsPacket endsPacket q ∧
        q.length ≤ p.maxPayloadBytes ∧
        ∀ e, (∀ x ∈ q, x.2 = e) →
          f <+: flagged (ethernetFrame p e (dataOf q)) ∧
          (IsPacket AxisByte.last f → f = flagged (ethernetFrame p e (dataOf q)))) ∧
    ((emitted h).countP AxisByte.last < (taken h).countP endsPacket → s.mFrameTvalid = true) ∧
    (∀ i, i.rstN = true → s.mFrameTvalid = true → i.mFrameTready = false →
      (step p s i).mFrameTvalid = true ∧ (step p s i).mFrameTdata = s.mFrameTdata ∧
        (step p s i).mFrameTlast = s.mFrameTlast) ∧
    (∀ ip n, onesSum (ipv4Words p ip n) = 0xFFFF) ∧
    (∀ i, i.rstN = true → i.sPayloadTvalid = true → s.mFrameTvalid = false →
      pending endsPacket (taken h) < p.maxPayloadBytes →
      txEvents p s i = [.payload ⟨i.sPayloadTdata, i.sPayloadTlast⟩ i.endpoint]) ∧
    ∀ more, (∀ i ∈ more, i.rstN = true) → s.mFrameTvalid = true →
      max 64 (p.maxPayloadBytes + 46) ≤ more.countP Pins.mFrameTready →
      ∃ pre, pre <+: more ∧ (run (step p) s pre).state = .idle := by
  intro h s
  have hf : Framing p s h := framing_run hmax s₀ hreset hrst
  refine ⟨fun k f hk => ?_, hf.offers, fun i hi => hf.stable hi, onesSum_ipv4Words p,
    fun i hi hv => hf.takes hi hv, fun more hmore hvalid => hf.ends hvalid hmore⟩
  obtain ⟨q, e', mac, bs, hq, hpacket, hroom, haddr, hkept, hle⟩ := hf.packets hk
  obtain rfl := hkept.data hpos
  rw [max_eq_right hpos] at hroom
  refine ⟨q, hq, hpacket, hroom, fun e hconst => ?_⟩
  obtain ⟨rfl, rfl⟩ := haddr.eq_of_const hconst
  rw [sentFrame_eq] at hle
  refine ⟨hle, fun hcomplete => eq_of_isPacket_of_isPrefix hcomplete ?_ hle⟩
  exact isPacket_flagged sentFrame_ne_nil

/-- A payload byte with a host's address on the pins. -/
def fromHost (mac : BitVec 48) (x : AxisByte) : Pins :=
  { feed x with remoteMac := mac, remoteIp := 0xC0A80001, remotePort := 50000 }

/-- The framer before the reset. -/
def powerUp : Regs where
  state := .idle
  payloadLen := 0
  sendIndex := 0
  dataLenNoFcs := 0
  totalLenWithFcs := 0
  crcState := 0
  fcsLatched := 0
  txRemoteMac := 0
  txRemoteIp := 0
  txRemotePort := 0
  payloadMem := fun _ => 0
  mFrameTdata := 0
  mFrameTvalid := false
  mFrameTlast := false
  packetSent := false
  payloadOverflow := false

def started : Regs := step {} powerUp { pause with rstN := false }

def theHost : Endpoint := ⟨0x9c69d31f215e, 0xC0A80001, 50000⟩

/-- A packet of two bytes with a gap between them, the time for its frame with a stall in it, and
a packet of one byte. -/
def twoPackets : List Pins :=
  fromHost theHost.mac ⟨0x11, false⟩ :: pause :: fromHost theHost.mac ⟨0x22, true⟩ ::
    (List.replicate 10 pause ++ List.replicate 3 { pause with mFrameTready := false } ++
      List.replicate 54 pause ++ fromHost theHost.mac ⟨0x33, true⟩ :: List.replicate 64 pause)

/-- The two frames; the byte behind the gap is taken, and the first frame ends. -/
theorem frames_of_packets_twoPackets :
    split AxisByte.last (emitted (trace (step {}) (txEvents {}) started twoPackets)) =
        [flagged (ethernetFrame {} theHost [0x11, 0x22]), flagged (ethernetFrame {} theHost [0x33])] ∧
      txEvents {} (run (step {}) started (twoPackets.take 2)) (fromHost theHost.mac ⟨0x22, true⟩) =
        [.payload ⟨0x22, true⟩ theHost] ∧
      ∃ pre, pre <+: List.replicate 1518 pause ∧
        (run (step {}) (run (step {}) started (twoPackets.take 3)) pre).state = .idle := by
  have hreset : ({ pause with rstN := false } : Pins).rstN = false := rfl
  have hrst : ∀ i ∈ twoPackets, i.rstN = true := by decide +kernel
  have hpart : ∀ n, ∀ i ∈ twoPackets.take n, i.rstN = true :=
    fun n i hi => hrst i (List.mem_of_mem_take hi)
  refine ⟨?_, ?_, ?_⟩
  · have hlen : (split AxisByte.last (emitted (trace (step {}) (txEvents {}) started twoPackets))).map
        List.length = [64, 64] := by decide +kernel
    have hpackets : split endsPacket (taken (trace (step {}) (txEvents {}) started twoPackets)) =
        [[(⟨0x11, false⟩, theHost), (⟨0x22, true⟩, theHost)], [(⟨0x33, true⟩, theHost)]] := by
      decide +kernel
    obtain ⟨f, fs, hfs, hf, hrest⟩ := List.map_eq_cons_iff.mp hlen
    obtain ⟨g, gs, rfl, hg, hnil⟩ := List.map_eq_cons_iff.mp hrest
    obtain rfl := List.map_eq_nil_iff.mp hnil
    obtain ⟨q, hq, -, -, hfirst⟩ :=
      (frames_of_packets (p := {}) (by decide) (by decide) hreset hrst).1 0 f (congrArg (·[0]?) hfs)
    obtain ⟨r, hr, -, -, hsecond⟩ :=
      (frames_of_packets (p := {}) (by decide) (by decide) hreset hrst).1 1 g (congrArg (·[1]?) hfs)
    obtain rfl := Option.some.inj ((congrArg (·[0]?) hpackets).symm.trans hq)
    obtain rfl := Option.some.inj ((congrArg (·[1]?) hpackets).symm.trans hr)
    have hf' := (hfirst theHost (by simp)).1.eq_of_length (by
      rw [hf, length_flagged, length_ethernetFrame]
      rfl)
    have hg' := (hsecond theHost (by simp)).1.eq_of_length (by
      rw [hg, length_flagged, length_ethernetFrame]
      rfl)
    rw [hfs, hf', hg']
    rfl
  · exact (frames_of_packets (p := {}) (by decide) (by decide) hreset (hpart 2)).2.2.2.2.1
      (fromHost theHost.mac ⟨0x22, true⟩) rfl rfl (by decide +kernel) (by decide +kernel)
  · refine (frames_of_packets (p := {}) (by decide) (by decide) hreset (hpart 3)).2.2.2.2.2 _
      (fun i hi => ?_) (by decide +kernel) ?_
    · rw [List.eq_of_mem_replicate hi]
      rfl
    · have hready : pause.mFrameTready = true := rfl
      rw [List.countP_replicate, if_pos hready]
      decide

end FpgaHashJoin.UdpIpv4Tx
