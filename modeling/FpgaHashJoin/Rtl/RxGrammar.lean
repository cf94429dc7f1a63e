import FpgaHashJoin.ByteFields
import FpgaHashJoin.Rtl.UdpIpv4Rx

/-!
# Which frames carry a datagram for the board

The grammar of the frames that the receive filter takes, over the bytes of a frame as a
whole. `datagram?` is the datagram in a frame; bytes behind it, padding and FCS, do not
matter. The header is described in three parts, each of which is decided when its last byte
has come.
-/

namespace FpgaHashJoin.UdpIpv4Rx

open ByteFields

structure Datagram where
  source : Endpoint
  payload : List UInt8

def macBytes (mac : BitVec 48) : List UInt8 :=
  [byteOf mac 5, byteOf mac 4, byteOf mac 3, byteOf mac 2, byteOf mac 1, byteOf mac 0]

def ipBytes (ip : BitVec 32) : List UInt8 :=
  [byteOf ip 3, byteOf ip 2, byteOf ip 1, byteOf ip 0]

def portBytes (port : BitVec 16) : List UInt8 := [byteOf port 1, byteOf port 0]

/-- The frame is for this board or for all, and holds an IPv4 packet. -/
def EthOk (p : Params) (bs : List UInt8) : Prop :=
  (p.acceptAnyDestMac = true ∨ slice bs 0 6 = macBytes p.localMac ∨
    slice bs 0 6 = List.replicate 6 0xff) ∧
  slice bs 12 2 = [0x08, 0x00]

def totalLength (bs : List UInt8) : Nat := beNat (slice bs 16 2)

/-- The packet has no IPv4 options, is no fragment, is for this board or for all, and holds
UDP. -/
def IpOk (p : Params) (bs : List UInt8) : Prop :=
  slice bs 14 1 = [0x45] ∧ beNat (slice bs 20 2) % 2 ^ 14 = 0 ∧ slice bs 23 1 = [17] ∧
  28 ≤ totalLength bs ∧
  (slice bs 30 4 = ipBytes p.localIp ∨ slice bs 30 4 = List.replicate 4 0xff ∨
    slice bs 30 4 = ipBytes p.subnetBroadcastIp)

def udpLength (bs : List UInt8) : Nat := beNat (slice bs 38 2)

/-- The datagram is for our port and lies within the packet. -/
def UdpOk (p : Params) (bs : List UInt8) : Prop :=
  slice bs 36 2 = portBytes p.localPort ∧ 8 ≤ udpLength bs ∧
  udpLength bs ≤ totalLength bs - 20

instance (p : Params) (bs : List UInt8) : Decidable (EthOk p bs) :=
  inferInstanceAs (Decidable (_ ∧ _))

instance (p : Params) (bs : List UInt8) : Decidable (IpOk p bs) :=
  inferInstanceAs (Decidable (_ ∧ _))

instance (p : Params) (bs : List UInt8) : Decidable (UdpOk p bs) :=
  inferInstanceAs (Decidable (_ ∧ _))

/-- Where the datagram came from. -/
def source (bs : List UInt8) : Endpoint where
  mac := .ofNat 48 (beNat (slice bs 6 6))
  ip := .ofNat 32 (beNat (slice bs 26 4))
  port := .ofNat 16 (beNat (slice bs 34 2))

def payloadLength (bs : List UInt8) : Nat := udpLength bs - 8

/-- The datagram of a frame that matches the grammar and is complete. -/
def datagram? (p : Params) (bs : List UInt8) : Option Datagram :=
  if EthOk p bs ∧ IpOk p bs ∧ UdpOk p bs ∧ payloadLength bs ≤ p.maxPayloadBytes ∧
      42 + payloadLength bs ≤ bs.length then
    some ⟨source bs, slice bs 42 (payloadLength bs)⟩
  else none

variable {p : Params} {bs more : List UInt8}

/-! ## What later bytes do not change -/

theorem ethOk_append (h : 14 ≤ bs.length) : EthOk p (bs ++ more) ↔ EthOk p bs := by
  unfold EthOk
  rw [slice_append (by omega), slice_append (by omega)]

theorem totalLength_append (h : 18 ≤ bs.length) : totalLength (bs ++ more) = totalLength bs := by
  unfold totalLength
  rw [slice_append (by omega)]

theorem ipOk_append (h : 34 ≤ bs.length) : IpOk p (bs ++ more) ↔ IpOk p bs := by
  unfold IpOk
  rw [slice_append (by omega), slice_append (by omega), slice_append (by omega),
    slice_append (by omega), totalLength_append (by omega)]

theorem udpLength_append (h : 40 ≤ bs.length) : udpLength (bs ++ more) = udpLength bs := by
  unfold udpLength
  rw [slice_append (by omega)]

theorem udpOk_append (h : 40 ≤ bs.length) : UdpOk p (bs ++ more) ↔ UdpOk p bs := by
  unfold UdpOk
  rw [slice_append (by omega), udpLength_append (by omega), totalLength_append (by omega)]

theorem payloadLength_append (h : 40 ≤ bs.length) :
    payloadLength (bs ++ more) = payloadLength bs := by
  unfold payloadLength
  rw [udpLength_append (by omega)]

theorem source_append (h : 36 ≤ bs.length) : source (bs ++ more) = source bs := by
  unfold source
  rw [slice_append (by omega), slice_append (by omega), slice_append (by omega)]

theorem datagram?_eq_none_of_short (h : bs.length < 42) : datagram? p bs = none := by
  rw [datagram?, if_neg]
  rintro ⟨-, -, -, -, hlen⟩
  omega

/-! ## Frames whose datagram is decided -/

/-- No later byte changes the datagram. -/
def Settled (p : Params) (bs : List UInt8) : Prop :=
  ∀ more, datagram? p (bs ++ more) = datagram? p bs

theorem Settled.append (h : Settled p bs) : Settled p (bs ++ more) := by
  intro rest
  rw [List.append_assoc, h, h]

/-- A frame that can hold no datagram, whatever follows. -/
theorem settled_of_none (h : ∀ more, datagram? p (bs ++ more) = none) : Settled p bs := by
  intro more
  have hnil := h []
  rw [List.append_nil] at hnil
  rw [h, hnil]

theorem settled_of_not_ethOk (hlen : 14 ≤ bs.length) (h : ¬ EthOk p bs) : Settled p bs :=
  settled_of_none fun _ => if_neg fun hok => h ((ethOk_append hlen).mp hok.1)

theorem settled_of_not_ipOk (hlen : 34 ≤ bs.length) (h : ¬ IpOk p bs) : Settled p bs :=
  settled_of_none fun _ => if_neg fun hok => h ((ipOk_append hlen).mp hok.2.1)

theorem datagram?_of_not_udpOk (h : ¬ UdpOk p bs) : datagram? p bs = none :=
  if_neg fun hok => h hok.2.2.1

theorem settled_of_not_udpOk (hlen : 40 ≤ bs.length) (h : ¬ UdpOk p bs) : Settled p bs :=
  settled_of_none fun _ => datagram?_of_not_udpOk fun hok => h ((udpOk_append hlen).mp hok)

theorem datagram?_of_long (h : p.maxPayloadBytes < payloadLength bs) : datagram? p bs = none :=
  if_neg fun hok => absurd hok.2.2.2.1 (by omega)

theorem settled_of_long (hlen : 40 ≤ bs.length) (h : p.maxPayloadBytes < payloadLength bs) :
    Settled p bs :=
  settled_of_none fun _ => datagram?_of_long (by rwa [payloadLength_append hlen])

/-- A frame with its whole datagram. -/
theorem datagram?_of_complete (heth : EthOk p bs) (hip : IpOk p bs) (hudp : UdpOk p bs)
    (hmax : payloadLength bs ≤ p.maxPayloadBytes) (hlen : 42 + payloadLength bs ≤ bs.length) :
    datagram? p bs = some ⟨source bs, slice bs 42 (payloadLength bs)⟩ :=
  if_pos ⟨heth, hip, hudp, hmax, hlen⟩

theorem settled_of_complete (heth : EthOk p bs) (hip : IpOk p bs) (hudp : UdpOk p bs)
    (hmax : payloadLength bs ≤ p.maxPayloadBytes) (hlen : 42 + payloadLength bs ≤ bs.length) :
    Settled p bs := by
  intro more
  have hlong : 40 ≤ bs.length := by omega
  rw [datagram?_of_complete heth hip hudp hmax hlen, datagram?_of_complete
    ((ethOk_append (by omega)).mpr heth) ((ipOk_append (by omega)).mpr hip)
    ((udpOk_append hlong).mpr hudp) (by rwa [payloadLength_append hlong])
    (by rw [payloadLength_append hlong, List.length_append]; omega),
    payloadLength_append hlong, source_append (by omega), slice_append hlen]

theorem datagram?_of_incomplete (hlen : bs.length < 42 + payloadLength bs) :
    datagram? p bs = none := by
  rw [datagram?, if_neg]
  rintro ⟨-, -, -, -, h⟩
  omega

end FpgaHashJoin.UdpIpv4Rx
