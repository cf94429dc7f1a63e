import FpgaHashJoin.Checksums
import FpgaHashJoin.Rtl.UdpIpv4Tx

/-!
# The Ethernet frame of a datagram

The frame that `udp_ipv4_tx` is to send for a payload, written down as a list of bytes: headers,
payload, padding and FCS. The checksum is the one's complement checksum of the header words, and
the FCS the CRC-32 of the bytes before it. The functions with which the framer computes checksum,
CRC and the byte at a position are compared with them.
-/

namespace FpgaHashJoin.UdpIpv4Tx

open Clocked PacketStream Checksums

/-! ## The frame of a datagram -/

/-- The receiver of a datagram. -/
structure Endpoint where
  mac : BitVec 48
  ip : BitVec 32
  port : BitVec 16
  deriving DecidableEq

def Pins.endpoint (i : Pins) : Endpoint := ⟨i.remoteMac, i.remoteIp, i.remotePort⟩

/-- The endpoint in the latches. -/
def Regs.endpoint (s : Regs) : Endpoint := ⟨s.txRemoteMac, s.txRemoteIp, s.txRemotePort⟩

/-- The two bytes of a word in the order of transmission. -/
def be16 (x : BitVec 16) : List UInt8 := [byteOf x 1, byteOf x 0]

def macBytes (mac : BitVec 48) : List UInt8 :=
  [byteOf mac 5, byteOf mac 4, byteOf mac 3, byteOf mac 2, byteOf mac 1, byteOf mac 0]

def ipBytes (ip : BitVec 32) : List UInt8 := [byteOf ip 3, byteOf ip 2, byteOf ip 1, byteOf ip 0]

/-- The words of the IPv4 header before and behind the checksum, for `n` bytes of payload. -/
def headerWords (n : Nat) : List (BitVec 16) := [0x4500, .ofNat 16 (28 + n), 0, 0, 0x4011]

def addressWords (p : Params) (ip : BitVec 32) : List (BitVec 16) :=
  [p.localIp.extractLsb' 16 16, p.localIp.extractLsb' 0 16, ip.extractLsb' 16 16, ip.extractLsb' 0 16]

/-- The words of the IPv4 header. -/
def ipv4Words (p : Params) (ip : BitVec 32) (n : Nat) : List (BitVec 16) :=
  headerWords n ++ internetChecksum (headerWords n ++ addressWords p ip) :: addressWords p ip

def ipv4Header (p : Params) (ip : BitVec 32) (n : Nat) : List UInt8 := (ipv4Words p ip n).flatMap be16

def udpHeader (p : Params) (port : BitVec 16) (n : Nat) : List UInt8 :=
  be16 p.localPort ++ be16 port ++ be16 (.ofNat 16 (8 + n)) ++ [0, 0]

/-- The frame without FCS, padded to the minimum length. -/
def frameData (p : Params) (e : Endpoint) (bs : List UInt8) : List UInt8 :=
  macBytes e.mac ++ macBytes p.localMac ++ [0x08, 0x00] ++ ipv4Header p e.ip bs.length ++
    udpHeader p e.port bs.length ++ bs ++ List.replicate (60 - (42 + bs.length)) 0

/-- The FCS, least significant byte first. -/
def fcsBytes (crc : BitVec 32) : List UInt8 := [byteOf crc 0, byteOf crc 1, byteOf crc 2, byteOf crc 3]

/-- The frame of a datagram. -/
def ethernetFrame (p : Params) (e : Endpoint) (bs : List UInt8) : List UInt8 :=
  frameData p e bs ++ fcsBytes (crc32 (frameData p e bs))

/-- The bytes on a stream, with TLAST on the last one. -/
def flagged (bs : List UInt8) : List AxisByte :=
  bs.zipIdx.map fun x => ⟨x.1, x.2 + 1 == bs.length⟩

/-- **The header words sum up to `0xFFFF`**, for every address and length. -/
theorem onesSum_ipv4Words (p : Params) (ip : BitVec 32) (n : Nat) :
    onesSum (ipv4Words p ip n) = 0xFFFF :=
  onesSum_internetChecksum _ _

theorem length_frameData (p : Params) (e : Endpoint) (bs : List UInt8) :
    (frameData p e bs).length = max 60 (42 + bs.length) := by
  simp only [frameData, ipv4Header, ipv4Words, headerWords, addressWords, udpHeader, macBytes, be16,
    List.cons_append, List.nil_append, List.flatMap_cons, List.flatMap_nil, List.length_append,
    List.length_cons, List.length_replicate]
  omega

theorem length_ethernetFrame (p : Params) (e : Endpoint) (bs : List UInt8) :
    (ethernetFrame p e bs).length = max 60 (42 + bs.length) + 4 := by
  rw [ethernetFrame, List.length_append, length_frameData]
  rfl

/-! ## The checksum of the framer -/

/-- One round of adding the carries to the low half. -/
def foldCarry (x : BitVec 20) : BitVec 20 :=
  (x.extractLsb' 0 16).setWidth 20 + (x.extractLsb' 16 4).setWidth 20

theorem toNat_foldCarry (x : BitVec 20) :
    (foldCarry x).toNat = x.toNat % 65536 + x.toNat / 65536 := by
  have hx := x.isLt
  have hlow : ((x.extractLsb' 0 16).setWidth 20).toNat = x.toNat % 65536 := by
    rw [BitVec.toNat_setWidth_of_le (by decide), BitVec.extractLsb'_toNat, Nat.shiftRight_zero]
  have hhigh : ((x.extractLsb' 16 4).setWidth 20).toNat = x.toNat / 65536 := by
    rw [BitVec.toNat_setWidth_of_le (by decide), BitVec.extractLsb'_toNat,
      Nat.shiftRight_eq_div_pow]
    omega
  rw [foldCarry, BitVec.toNat_add, hlow, hhigh]
  omega

/-- A sum of words that fits 20 bits, folded twice. -/
theorem foldCarry_twice {x : BitVec 20} (hpos : 0 < x.toNat) :
    ((foldCarry (foldCarry x)).extractLsb' 0 16).toNat = endAround x.toNat := by
  have hfold := foldCarries_eq hpos x.isLt
  have hlt := endAround_lt x.toNat
  rw [BitVec.extractLsb'_toNat, Nat.shiftRight_zero, toNat_foldCarry, toNat_foldCarry]
  dsimp only at hfold
  rw [hfold]
  exact Nat.mod_eq_of_lt hlt

/-- The framer collects the carries and folds them at the end. -/
theorem ipv4Checksum_eq (p : Params) (s : Regs) (n : Nat) :
    ipv4Checksum p s (.ofNat 16 (28 + n)) =
      internetChecksum (headerWords n ++ addressWords p s.txRemoteIp) := by
  let word (x : BitVec 16) : BitVec 20 := x.setWidth 20
  let total : BitVec 20 := word 0x4500 + word (.ofNat 16 (28 + n)) + word 0x4011 +
    word (p.localIp.extractLsb' 16 16) + word (p.localIp.extractLsb' 0 16) +
    word (s.txRemoteIp.extractLsb' 16 16) + word (s.txRemoteIp.extractLsb' 0 16)
  have hword : ∀ x, (word x).toNat = x.toNat := fun x => BitVec.toNat_setWidth_of_le (by decide)
  have hsum : total.toNat = ((headerWords n ++ addressWords p s.txRemoteIp).map BitVec.toNat).sum := by
    have hlt : ∀ x : BitVec 16, x.toNat < 65536 := fun x => x.isLt
    have hlen := hlt (.ofNat 16 (28 + n))
    have h1 := hlt (p.localIp.extractLsb' 16 16)
    have h2 := hlt (p.localIp.extractLsb' 0 16)
    have h3 := hlt (s.txRemoteIp.extractLsb' 16 16)
    have h4 := hlt (s.txRemoteIp.extractLsb' 0 16)
    have hver : (0x4500 : BitVec 16).toNat = 0x4500 := rfl
    have httl : (0x4011 : BitVec 16).toNat = 0x4011 := rfl
    have hzero : (0 : BitVec 16).toNat = 0 := rfl
    simp only [total, BitVec.toNat_add, hword, headerWords, addressWords, List.cons_append,
      List.nil_append, List.map_cons, List.map_nil, List.sum_cons, List.sum_nil, hver, httl, hzero]
    omega
  have hpos : 0 < total.toNat := by
    rw [hsum]
    simp [headerWords]
  have hcheck : ipv4Checksum p s (.ofNat 16 (28 + n)) =
      ~~~ ((foldCarry (foldCarry total)).extractLsb' 0 16) := rfl
  rw [hcheck, internetChecksum]
  congr 1
  apply BitVec.eq_of_toNat_eq
  rw [toNat_onesSum, foldCarry_twice hpos, hsum]

/-- The framer takes the CRC byte by byte. -/
theorem crc32Next_eq (bs : List UInt8) (b : UInt8) :
    crc32Next (crcRegister bs) b = crcRegister (bs ++ [b]) := by
  rw [crcRegister_snoc, bitsOf, List.foldl_map]
  rfl

/-! ## The bytes of a frame -/

/-- The header of a frame. -/
def frameHeader (p : Params) (e : Endpoint) (n : Nat) : List UInt8 :=
  macBytes e.mac ++ macBytes p.localMac ++ [0x08, 0x00] ++ ipv4Header p e.ip n ++ udpHeader p e.port n

theorem frameData_eq (p : Params) (e : Endpoint) (bs : List UInt8) :
    frameData p e bs =
      frameHeader p e bs.length ++ bs ++ List.replicate (60 - (42 + bs.length)) 0 := rfl

theorem length_frameHeader (p : Params) (e : Endpoint) (n : Nat) : (frameHeader p e n).length = 42 := rfl

theorem byteOf_half (x : BitVec 32) {k j : Nat} (hj : j < 2) :
    byteOf (x.extractLsb' (16 * k) 16) j = byteOf x (2 * k + j) := by
  unfold byteOf
  refine UInt8.toBitVec_inj.mp (BitVec.eq_of_getLsbD_eq fun i hi => ?_)
  rw [UInt8.toBitVec_ofBitVec, UInt8.toBitVec_ofBitVec, BitVec.getLsbD_extractLsb',
    BitVec.getLsbD_extractLsb', BitVec.getLsbD_extractLsb']
  have hpos : 16 * k + (8 * j + i) = 8 * (2 * k + j) + i := by omega
  have hin : 8 * j + i < 16 := by omega
  rw [hpos]
  simp [hi, hin]

theorem be16_halves (x : BitVec 32) :
    be16 (x.extractLsb' 16 16) ++ be16 (x.extractLsb' 0 16) = ipBytes x := by
  have h3 : byteOf (x.extractLsb' 16 16) 1 = byteOf x 3 := byteOf_half x (k := 1) (by decide)
  have h2 : byteOf (x.extractLsb' 16 16) 0 = byteOf x 2 := byteOf_half x (k := 1) (by decide)
  have h1 : byteOf (x.extractLsb' 0 16) 1 = byteOf x 1 := byteOf_half x (k := 0) (by decide)
  have h0 : byteOf (x.extractLsb' 0 16) 0 = byteOf x 0 := byteOf_half x (k := 0) (by decide)
  rw [be16, be16, h3, h2, h1, h0]
  rfl

theorem ipv4Header_eq (p : Params) (ip : BitVec 32) (n : Nat) :
    ipv4Header p ip n =
      (headerWords n ++ [internetChecksum (headerWords n ++ addressWords p ip)]).flatMap be16 ++
        (ipBytes p.localIp ++ ipBytes ip) := by
  rw [← be16_halves, ← be16_halves, ipv4Header, ipv4Words, List.append_cons, List.flatMap_append]
  simp [addressWords]

/-- The registers hold a datagram. -/
structure HoldsPayload (s : Regs) (bs : List UInt8) : Prop where
  len : s.payloadLen = BitVec.ofNat 16 bs.length
  mem : ∀ j b, bs[j]? = some b → s.payloadMem j = b
  bound : bs.length + 46 < 2 ^ 16

section Bytes

variable {p : Params} {s : Regs} {bs : List UInt8}

theorem frameDataByte_header (h : HoldsPayload s bs) {j : Nat} (hj : j < 42) :
    (frameHeader p s.endpoint bs.length)[j]? = some (frameDataByte p s (.ofNat 16 j)) := by
  have hip : 28 + s.payloadLen = BitVec.ofNat 16 (28 + bs.length) := by
    rw [h.len, BitVec.ofNat_add]
    rfl
  have hudp : 8 + s.payloadLen = BitVec.ofNat 16 (8 + bs.length) := by
    rw [h.len, BitVec.ofNat_add]
    rfl
  unfold frameDataByte
  dsimp only
  rw [hip, hudp, ipv4Checksum_eq, frameHeader, ipv4Header_eq]
  interval_cases j <;> rfl

theorem frameDataByte_payload (h : HoldsPayload s bs) {k : Nat} (hk : k + 42 < 2 ^ 16) :
    frameDataByte p s (.ofNat 16 (k + 42)) = (bs[k]?).getD 0 := by
  have hbound := h.bound
  have hidx : (BitVec.ofNat 16 (k + 42)).toNat = k + 42 := by
    rw [BitVec.toNat_ofNat]
    exact Nat.mod_eq_of_lt hk
  have h6 : ¬ BitVec.ofNat 16 (k + 42) < 6 := by bv_omega
  have h12 : ¬ BitVec.ofNat 16 (k + 42) < 12 := by bv_omega
  have hlast : BitVec.ofNat 16 (k + 42) < headerBytes + s.payloadLen ↔ k < bs.length := by
    rw [h.len, headerBytes]
    bv_omega
  have hoff : (BitVec.ofNat 16 (k + 42) - headerBytes).toNat = k := by
    rw [headerBytes]
    bv_omega
  -- no case of the header applies
  have hbyte : frameDataByte p s (.ofNat 16 (k + 42)) =
      if BitVec.ofNat 16 (k + 42) < headerBytes + s.payloadLen then
        s.payloadMem (BitVec.ofNat 16 (k + 42) - headerBytes).toNat
      else 0 := by
    unfold frameDataByte
    dsimp only
    rw [if_neg h6, if_neg h12, hidx]
    rfl
  rw [hbyte]
  by_cases hin : k < bs.length
  · have hget := List.getElem?_eq_getElem hin
    rw [if_pos (hlast.mpr hin), hoff, hget, Option.getD_some]
    exact h.mem _ _ hget
  · rw [if_neg (mt hlast.mp hin), List.getElem?_eq_none (not_lt.mp hin)]
    rfl

/-- **The byte that the framer computes for a position** is the one of the frame. -/
theorem frameDataByte_eq (h : HoldsPayload s bs) {j : Nat} (hj : j < max 60 (42 + bs.length)) :
    (frameData p s.endpoint bs)[j]? = some (frameDataByte p s (.ofNat 16 j)) := by
  have hbound := h.bound
  have hlen := length_frameHeader p s.endpoint bs.length
  rw [frameData_eq, List.append_assoc]
  by_cases hhead : j < 42
  · rw [List.getElem?_append_left (by omega)]
    exact frameDataByte_header h hhead
  · obtain ⟨k, rfl⟩ := Nat.exists_eq_add_of_le' (not_lt.mp hhead)
    rw [List.getElem?_append_right (by omega), hlen, Nat.add_sub_cancel,
      frameDataByte_payload h (by omega)]
    by_cases hin : k < bs.length
    · rw [List.getElem?_append_left hin, List.getElem?_eq_getElem hin]
      rfl
    · rw [List.getElem?_append_right (by omega), List.getElem?_replicate,
        if_pos (by omega), List.getElem?_eq_none (by omega)]
      rfl

end Bytes

/-! ## Frames on the stream -/

theorem getElem?_flagged (bs : List UInt8) (k : Nat) :
    (flagged bs)[k]? = bs[k]?.map fun b => ⟨b, k + 1 == bs.length⟩ := by
  rw [flagged, List.getElem?_map, List.getElem?_zipIdx, Option.map_map, Nat.zero_add]
  rfl

theorem length_flagged (bs : List UInt8) : (flagged bs).length = bs.length := by
  simp [flagged]

theorem take_succ_flagged {bs : List UInt8} {k : Nat} {b : UInt8} (h : bs[k]? = some b) :
    (flagged bs).take (k + 1) = (flagged bs).take k ++ [⟨b, k + 1 == bs.length⟩] := by
  rw [List.take_add_one, getElem?_flagged, h]
  rfl

/-- Before the end of a frame there is no TLAST. -/
theorem quiet_take_flagged {bs : List UInt8} {k : Nat} (hk : k < bs.length) :
    ∀ x ∈ (flagged bs).take k, x.last = false := by
  intro x hx
  obtain ⟨j, hj⟩ := List.mem_iff_getElem?.mp hx
  rw [List.getElem?_take] at hj
  split at hj
  · next hlt =>
    rw [getElem?_flagged, Option.map_eq_some_iff] at hj
    obtain ⟨b, -, rfl⟩ := hj
    exact beq_false_of_ne (by omega)
  · cases hj

theorem isPacket_flagged {bs : List UInt8} (hne : bs ≠ []) : IsPacket AxisByte.last (flagged bs) := by
  have hpos := List.length_pos_iff.mpr hne
  obtain ⟨k, hk⟩ := Nat.exists_eq_succ_of_ne_zero hpos.ne'
  obtain ⟨b, hget⟩ : ∃ b, bs[k]? = some b := ⟨_, List.getElem?_eq_getElem (by omega)⟩
  refine ⟨(flagged bs).take k, ⟨b, k + 1 == bs.length⟩, ?_, ?_, quiet_take_flagged (by omega)⟩
  · rw [← take_succ_flagged hget, List.take_of_length_le]
    rw [length_flagged]
    omega
  · exact beq_iff_eq.mpr hk.symm

/-- What goes out for a packet: the first byte is the one of the address on the pins at the end
of the packet. -/
def sentData (p : Params) (e : Endpoint) (mac : BitVec 48) (bs : List UInt8) : List UInt8 :=
  byteOf mac 5 :: (frameData p e bs).drop 1

def sentFrame (p : Params) (e : Endpoint) (mac : BitVec 48) (bs : List UInt8) : List UInt8 :=
  sentData p e mac bs ++ fcsBytes (crc32 (sentData p e mac bs))

section SentFrame

variable {p : Params} {e : Endpoint} {mac : BitVec 48} {bs : List UInt8}

theorem sentFrame_eq : sentFrame p e e.mac bs = ethernetFrame p e bs := rfl

theorem length_sentData : (sentData p e mac bs).length = max 60 (42 + bs.length) := by
  rw [sentData, List.length_cons, List.length_drop, length_frameData]
  omega

theorem length_sentFrame : (sentFrame p e mac bs).length = max 60 (42 + bs.length) + 4 := by
  rw [sentFrame, List.length_append, length_sentData]
  rfl

theorem sentFrame_ne_nil : sentFrame p e mac bs ≠ [] := by
  rw [sentFrame, sentData]
  nofun

theorem getElem?_sentData {j : Nat} (hj : 0 < j) :
    (sentData p e mac bs)[j]? = (frameData p e bs)[j]? := by
  obtain ⟨k, rfl⟩ := Nat.exists_eq_succ_of_ne_zero hj.ne'
  rw [sentData, List.getElem?_cons_succ, List.getElem?_drop, Nat.add_comm]

theorem getElem?_sentFrame_fcs {k : Nat} (hk : k < 4) :
    (sentFrame p e mac bs)[max 60 (42 + bs.length) + k]? =
      some (fcsByte (crc32 (sentData p e mac bs)) (.ofNat 2 k)) := by
  rw [sentFrame, List.getElem?_append_right (by rw [length_sentData]; omega), length_sentData,
    Nat.add_sub_cancel_left]
  interval_cases k <;> rfl

end SentFrame

end FpgaHashJoin.UdpIpv4Tx
