import FpgaHashJoin.Rtl.RxGrammar

/-!
# The parser follows the grammar

The flags and registers of the parser as functions of the bytes of the frame: `EthScan`,
`IpScan` and `UdpScan` say it for the three headers, `Parsed` for the parser as a whole. One
more byte keeps `Parsed`, and the parser leaves the frame exactly when its datagram is
settled (`byteStep_outcome`).
-/

namespace FpgaHashJoin.UdpIpv4Rx

open ByteFields

variable {p : Params} {bs : List UInt8} {b : UInt8}

/-! ## The registers of the headers -/

structure EthRegs where
  dstMacMatch : Bool
  dstMacBcast : Bool
  ethertypeIpv4 : Bool
  srcMac : BitVec 48

structure IpRegs where
  ipOk : Bool
  dstIpMatch : Bool
  dstIpBcast : Bool
  dstIpSubnetBcast : Bool
  totalLength : BitVec 16
  srcIp : BitVec 32

structure UdpRegs where
  portMatch : Bool
  srcPort : BitVec 16
  udpLength : BitVec 16

def Parser.ethRegs (q : Parser) : EthRegs :=
  ⟨q.dstMacMatch, q.dstMacBcast, q.ethertypeIpv4, q.packetSrc.mac⟩

def Parser.ipRegs (q : Parser) : IpRegs :=
  ⟨q.ipOk, q.dstIpMatch, q.dstIpBcast, q.dstIpSubnetBcast, q.ipTotalLength, q.packetSrc.ip⟩

def Parser.udpRegs (q : Parser) : UdpRegs := ⟨q.udpPortMatch, q.packetSrc.port, q.udpLength⟩

/-- The tests of the IPv4 header up to the protocol: version and header length, no fragment,
UDP. -/
def ipTests : List (UInt8 → Bool) :=
  let any : UInt8 → Bool := fun _ => true
  [(· == 0x45), any, any, any, any, any, (· &&& 0x3f == 0x00), (· == 0x00), any, (· == 0x11)]

structure EthScan (p : Params) (r : EthRegs) (bs : List UInt8) : Prop where
  macMatch : r.dstMacMatch = true ↔ Fits 0 (exactly (macBytes p.localMac)) bs
  macBcast : r.dstMacBcast = true ↔ Fits 0 (exactly (List.replicate 6 0xff)) bs
  ethertype : 13 ≤ bs.length → (r.ethertypeIpv4 = true ↔ Fits 12 (exactly [0x08, 0x00]) bs)
  srcMac : Captured r.srcMac.toNat 6 6 bs

structure IpScan (p : Params) (r : IpRegs) (bs : List UInt8) : Prop where
  ipOk : r.ipOk = true ↔ Fits 14 ipTests bs
  ipMatch : r.dstIpMatch = true ↔ Fits 30 (exactly (ipBytes p.localIp)) bs
  ipBcast : r.dstIpBcast = true ↔ Fits 30 (exactly (List.replicate 4 0xff)) bs
  ipSubnet : r.dstIpSubnetBcast = true ↔ Fits 30 (exactly (ipBytes p.subnetBroadcastIp)) bs
  total : Captured r.totalLength.toNat 16 2 bs
  srcIp : Captured r.srcIp.toNat 26 4 bs

structure UdpScan (p : Params) (r : UdpRegs) (bs : List UInt8) : Prop where
  portMatch : r.portMatch = true ↔ Fits 36 (exactly (portBytes p.localPort)) bs
  srcPort : Captured r.srcPort.toNat 34 2 bs
  udpLength : Captured r.udpLength.toNat 38 2 bs

/-! ### At the start, and outside the header -/

theorem EthScan.start : EthScan p ⟨true, true, false, 0⟩ [] where
  macMatch := iff_of_true rfl (fits_of_length_le le_rfl)
  macBcast := iff_of_true rfl (fits_of_length_le le_rfl)
  ethertype h := absurd h (by simp)
  srcMac := captured_of_length_le (Nat.zero_le _)

theorem IpScan.start : IpScan p ⟨true, true, true, true, 0, 0⟩ [] where
  ipOk := iff_of_true rfl (fits_of_length_le (Nat.zero_le _))
  ipMatch := iff_of_true rfl (fits_of_length_le (Nat.zero_le _))
  ipBcast := iff_of_true rfl (fits_of_length_le (Nat.zero_le _))
  ipSubnet := iff_of_true rfl (fits_of_length_le (Nat.zero_le _))
  total := captured_of_length_le (Nat.zero_le _)
  srcIp := captured_of_length_le (Nat.zero_le _)

theorem UdpScan.start : UdpScan p ⟨true, 0, 0⟩ [] where
  portMatch := iff_of_true rfl (fits_of_length_le (Nat.zero_le _))
  srcPort := captured_of_length_le (Nat.zero_le _)
  udpLength := captured_of_length_le (Nat.zero_le _)

theorem EthScan.keep {r : EthRegs} (h : EthScan p r bs) (hlen : 14 ≤ bs.length) :
    EthScan p r (bs ++ [b]) where
  macMatch := h.macMatch.trans (fits_snoc_of_out (.inr (by simp [exactly, macBytes]; omega))).symm
  macBcast := h.macBcast.trans (fits_snoc_of_out (.inr (by simp [exactly]; omega))).symm
  ethertype _ :=
    (h.ethertype (by omega)).trans (fits_snoc_of_out (.inr (by simp [exactly]; omega))).symm
  srcMac := h.srcMac.snoc_of_out (by omega)

theorem IpScan.keep {r : IpRegs} (h : IpScan p r bs)
    (hlen : bs.length < 14 ∨ 34 ≤ bs.length) : IpScan p r (bs ++ [b]) where
  ipOk := h.ipOk.trans (fits_snoc_of_out (by simp [ipTests]; omega)).symm
  ipMatch := h.ipMatch.trans (fits_snoc_of_out (by simp [exactly, ipBytes]; omega)).symm
  ipBcast := h.ipBcast.trans (fits_snoc_of_out (by simp [exactly]; omega)).symm
  ipSubnet := h.ipSubnet.trans (fits_snoc_of_out (by simp [exactly, ipBytes]; omega)).symm
  total := h.total.snoc_of_out (by omega)
  srcIp := h.srcIp.snoc_of_out (by omega)

theorem UdpScan.keep {r : UdpRegs} (h : UdpScan p r bs)
    (hlen : bs.length < 34 ∨ 42 ≤ bs.length) : UdpScan p r (bs ++ [b]) where
  portMatch := h.portMatch.trans (fits_snoc_of_out (by simp [exactly, portBytes]; omega)).symm
  srcPort := h.srcPort.snoc_of_out (by omega)
  udpLength := h.udpLength.snoc_of_out (by omega)

/-- A flag with the test of the next byte. -/
theorem flag_snoc {flag : Bool} {lo : Nat} {tests : List (UInt8 → Bool)}
    (h : flag = true ↔ Fits lo tests bs) (hlo : lo ≤ bs.length) {t : UInt8 → Bool}
    (ht : tests.getD (bs.length - lo) (fun _ => true) = t) :
    (flag && t b) = true ↔ Fits lo tests (bs ++ [b]) := by
  rw [fits_snoc_getD hlo, ht, Bool.and_eq_true, h]

theorem captured_setByte {w lo n k : Nat} {x : BitVec w} (h : Captured x.toNat lo n bs)
    (hw : 8 * n ≤ w) (hk : k < n) (hpos : lo + k = bs.length) :
    Captured (setByte x (n - 1 - k) b).toNat lo n (bs ++ [b]) := by
  refine h.snoc hpos ?_ fun j hj hjk => ?_
  · rw [← toNat_byteOf, byteOf_setByte _ _ _ (by omega), if_pos rfl]
  · rw [← toNat_byteOf, ← toNat_byteOf, byteOf_setByte _ _ _ (by omega), if_neg (by omega)]

/-! ## The Ethernet header -/

/-- Buffers, output stage and remote endpoint are the same. -/
structure SameStore (r s : Regs) : Prop where
  bufs : r.bufs = s.bufs
  out : r.out = s.out
  writeBuf : r.writeBuf = s.writeBuf
  remote : r.remote = s.remote

variable {s acc : Regs}

theorem ethByte_same : SameStore (ethByte p s acc b) acc := by
  unfold ethByte dropPacket
  constructor <;> (dsimp only; split_ifs <;> rfl)

theorem ethByte_other : (ethByte p s acc b).parser.ipRegs = acc.parser.ipRegs ∧
    (ethByte p s acc b).parser.udpRegs = acc.parser.udpRegs := by
  unfold ethByte dropPacket
  constructor <;> (dsimp only; split_ifs <;> rfl)

theorem ethByte_mac (hstate : s.parser.state = .eth) (hn : s.parser.index < 6) :
    (ethByte p s acc b).parser = { acc.parser with
      dstMacMatch := acc.parser.dstMacMatch && b == macByte p.localMac (s.parser.index.setWidth 3)
      dstMacBcast := acc.parser.dstMacBcast && b == 0xff
      index := s.parser.index + 1 } := by
  have hne : s.parser.index ≠ 13 := by bv_omega
  simp only [ethByte, if_pos hn, if_pos (And.intro hstate hne)]
  split_ifs <;> simp_all

theorem ethByte_src (hstate : s.parser.state = .eth) (hn : 6 ≤ s.parser.index)
    (hn' : s.parser.index < 12) :
    (ethByte p s acc b).parser = { acc.parser with
      packetSrc.mac := setByte acc.parser.packetSrc.mac (srcMacPos s.parser.index) b
      index := s.parser.index + 1 } := by
  have hne : s.parser.index ≠ 13 := by bv_omega
  have hge : ¬ s.parser.index < 6 := by bv_omega
  simp only [ethByte, if_neg hge, if_pos hn', if_pos (And.intro hstate hne)]

theorem ethByte_type (hstate : s.parser.state = .eth) (hn : s.parser.index = 12) :
    (ethByte p s acc b).parser = { acc.parser with
      ethertypeIpv4 := b == 0x08
      index := s.parser.index + 1 } := by
  have h₁ : ¬ (12 : BitVec 6) < 6 := by decide
  have h₂ : ¬ (12 : BitVec 6) < 12 := by decide
  have h₃ : (12 : BitVec 6) ≠ 13 := by decide
  simp only [ethByte, hstate, hn, if_neg h₁, if_neg h₂, ne_eq, h₃, not_false_eq_true, and_self,
    if_true]
  split_ifs <;> rfl

theorem ethByte_last (hn : s.parser.index = 13) :
    (ethByte p s acc b).parser =
      if (p.acceptAnyDestMac || s.parser.dstMacMatch || s.parser.dstMacBcast) &&
          (s.parser.ethertypeIpv4 && b == 0x00) then
        { acc.parser with
          ethertypeIpv4 := s.parser.ethertypeIpv4 && b == 0x00, state := .ip, index := 0 }
      else
        { acc.parser with
          ethertypeIpv4 := s.parser.ethertypeIpv4 && b == 0x00, state := .drop } := by
  have h₁ : ¬ (13 : BitVec 6) < 6 := by decide
  have h₂ : ¬ (13 : BitVec 6) < 12 := by decide
  have h₃ : (13 : BitVec 6) ≠ 12 := by decide
  have h₄ : ∀ c₁ c₂ : Bool, (!c₁ || !c₂) = !(c₁ && c₂) := by decide
  simp only [ethByte, hn, if_neg h₁, if_neg h₂, if_neg h₃, dropPacket, ne_eq, not_true_eq_false,
    and_false, if_false, if_true, h₄, Bool.not_eq_true', apply_ite Regs.parser]
  rw [← ite_not]
  simp only [Bool.not_eq_false]

theorem macTests_getD {mac : BitVec 48} {index : BitVec 6} {n : Nat} (hindex : index.toNat = n)
    (hn : n < 6) : (exactly (macBytes mac)).getD n (fun _ => true) =
      fun b => b == macByte mac (index.setWidth 3) := by
  obtain rfl : index = BitVec.ofNat 6 n := by
    rw [← hindex, BitVec.ofNat_toNat, BitVec.setWidth_eq]
  interval_cases n <;> rfl

theorem onesTests_getD {n m : Nat} (hn : n < m) :
    (exactly (List.replicate m 0xff)).getD n (fun _ => true) = fun b => b == 0xff := by
  simp [exactly, List.getD, hn]

theorem srcMacPos_eq {index : BitVec 6} {n : Nat} (hindex : index.toNat = 6 + n) (hn : n < 6) :
    srcMacPos index = 6 - 1 - n := by
  unfold srcMacPos
  rw [hindex]
  interval_cases n <;> rfl

theorem ethByte_scan (hparser : acc.parser = s.parser) (hstate : s.parser.state = .eth)
    (hindex : s.parser.index.toNat = bs.length) (hlen : bs.length < 14)
    (h : EthScan p s.parser.ethRegs bs) :
    EthScan p (ethByte p s acc b).parser.ethRegs (bs ++ [b]) := by
  have hmacs (hout : 6 ≤ bs.length) : (s.parser.dstMacMatch = true ↔
        Fits 0 (exactly (macBytes p.localMac)) (bs ++ [b])) ∧ (s.parser.dstMacBcast = true ↔
        Fits 0 (exactly (List.replicate 6 0xff)) (bs ++ [b])) :=
    ⟨h.macMatch.trans (fits_snoc_of_out (.inr (by simp [exactly, macBytes]; omega))).symm,
      h.macBcast.trans (fits_snoc_of_out (.inr (by simp [exactly]; omega))).symm⟩
  rcases Nat.lt_or_ge bs.length 6 with h6 | h6
  · rw [ethByte_mac hstate (by bv_omega), hparser]
    refine ⟨flag_snoc h.macMatch (Nat.zero_le _) (macTests_getD hindex h6),
      flag_snoc h.macBcast (Nat.zero_le _) (onesTests_getD h6), fun hlong => ?_,
      h.srcMac.snoc_of_out (.inl h6)⟩
    simp at hlong
    omega
  rcases Nat.lt_or_ge bs.length 12 with h12 | h12
  · rw [ethByte_src hstate (by bv_omega) (by bv_omega), hparser,
      srcMacPos_eq (n := bs.length - 6) (by omega) (by omega)]
    refine ⟨(hmacs h6).1, (hmacs h6).2, fun hlong => ?_,
      captured_setByte h.srcMac (by decide) (by omega) (by omega)⟩
    simp at hlong
    omega
  rcases Nat.lt_or_ge bs.length 13 with h13 | h13
  · have hpos : bs.length = 12 := by omega
    rw [ethByte_type hstate (by bv_omega), hparser]
    refine ⟨(hmacs h6).1, (hmacs h6).2, fun _ => ?_, h.srcMac.snoc_of_out (by omega)⟩
    have hfirst : true = true ↔ Fits 12 (exactly [0x08, 0x00]) bs :=
      iff_of_true rfl (fits_of_length_le hpos.le)
    exact flag_snoc hfirst hpos.ge (t := fun b => b == 0x08) (by rw [hpos]; rfl)
  · have hpos : bs.length = 13 := by omega
    have htype : (s.parser.ethertypeIpv4 && b == 0x00) = true ↔
        Fits 12 (exactly [0x08, 0x00]) (bs ++ [b]) :=
      flag_snoc (h.ethertype h13) (by omega) (t := fun b => b == 0x00) (by rw [hpos]; rfl)
    have hnew : EthScan p ⟨s.parser.dstMacMatch, s.parser.dstMacBcast,
        s.parser.ethertypeIpv4 && b == 0x00, s.parser.packetSrc.mac⟩ (bs ++ [b]) :=
      ⟨(hmacs h6).1, (hmacs h6).2, fun _ => htype, h.srcMac.snoc_of_out (by omega)⟩
    rw [ethByte_last (by bv_omega), hparser]
    split_ifs
    · exact hnew
    · exact hnew

/-- With the last byte of the header the flags decide it. -/
theorem EthScan.ok_iff {r : EthRegs} (h : EthScan p r bs) (hlen : 14 ≤ bs.length) :
    ((p.acceptAnyDestMac || r.dstMacMatch || r.dstMacBcast) && r.ethertypeIpv4) = true ↔
      EthOk p bs := by
  unfold EthOk
  rw [Bool.and_eq_true, Bool.or_eq_true, Bool.or_eq_true, or_assoc, h.macMatch, h.macBcast,
    h.ethertype (by omega)]
  rw [fits_exactly_iff (by simp [macBytes]; omega), fits_exactly_iff (by simp; omega),
    fits_exactly_iff (by simp; omega)]
  rfl

/-! ## The IPv4 header -/

theorem ipField_same : SameStore (ipField p s acc b) acc := by
  unfold ipField
  constructor <;> (dsimp only; split <;> (try split_ifs) <;> rfl)

theorem ipField_other : (ipField p s acc b).parser.ethRegs = acc.parser.ethRegs ∧
    (ipField p s acc b).parser.udpRegs = acc.parser.udpRegs ∧
    (ipField p s acc b).parser.state = acc.parser.state := by
  unfold ipField
  refine ⟨?_, ?_, ?_⟩ <;> (dsimp only; split <;> (try split_ifs) <;> rfl)

/-- The registers after byte `n` of the header. -/
def IpRegs.next (p : Params) (r : IpRegs) (n : Nat) (b : UInt8) : IpRegs where
  ipOk := (n == 0 || r.ipOk) && ipTests.getD n (fun _ => true) b
  dstIpMatch := r.dstIpMatch && (n < 16 || b == ipByte p.localIp (.ofNat 2 n))
  dstIpBcast := r.dstIpBcast && (n < 16 || b == 0xff)
  dstIpSubnetBcast := r.dstIpSubnetBcast && (n < 16 || b == ipByte p.subnetBroadcastIp (.ofNat 2 n))
  totalLength := if 2 ≤ n ∧ n < 4 then setByte r.totalLength (3 - n) b else r.totalLength
  srcIp := if 12 ≤ n ∧ n < 16 then setByte r.srcIp (15 - n) b else r.srcIp

theorem ipField_next {n : Nat} (hindex : s.parser.index.toNat = n) (hn : n < 20) :
    (ipField p s acc b).parser.ipRegs = acc.parser.ipRegs.next p n b := by
  have hofNat : s.parser.index = BitVec.ofNat 6 n := by
    rw [← hindex, BitVec.ofNat_toNat, BitVec.setWidth_eq]
  unfold ipField
  rw [hindex, hofNat]
  clear hindex hofNat
  interval_cases n <;> simp [IpRegs.next, Parser.ipRegs, ipTests]  <;> (split_ifs <;> simp_all)

theorem ipTests_getD {ip : BitVec 32} {n : Nat} (hn : 16 ≤ n) (hn' : n < 20) :
    (exactly (ipBytes ip)).getD (n - 16) (fun _ => true) =
      fun b => b == ipByte ip (.ofNat 2 n) := by
  interval_cases n <;> rfl

/-- A flag of the destination address: tested from byte 16 of the header on. -/
theorem dstIp_flag {flag : Bool} {tests : List (UInt8 → Bool)} {n : Nat} {t : UInt8 → Bool}
    (h : flag = true ↔ Fits 30 tests bs) (hpos : bs.length = 14 + n)
    (ht : 16 ≤ n → tests.getD (n - 16) (fun _ => true) = t) :
    (flag && (n < 16 || t b)) = true ↔ Fits 30 tests (bs ++ [b]) := by
  rcases Nat.lt_or_ge n 16 with hn | hn
  · rw [fits_snoc_of_out (.inl (by omega)), decide_eq_true hn, Bool.true_or, Bool.and_true, h]
  · rw [decide_eq_false (by omega), Bool.false_or]
    refine flag_snoc h (by omega) ?_
    rw [show bs.length - 30 = n - 16 by omega, ht hn]

theorem IpScan.next {r : IpRegs} {n : Nat} (h : IpScan p r bs) (hpos : bs.length = 14 + n)
    (hn : n < 20) : IpScan p (r.next p n b) (bs ++ [b]) where
  ipOk := by
    have hflag : (n == 0 || r.ipOk) = true ↔ Fits 14 ipTests bs := by
      rcases Nat.eq_zero_or_pos n with rfl | hn
      · exact iff_of_true rfl (fits_of_length_le hpos.le)
      · rw [← h.ipOk, beq_eq_false_iff_ne.mpr (by omega), Bool.false_or]
    exact flag_snoc hflag (by omega) (by rw [hpos, Nat.add_sub_cancel_left])
  ipMatch := dstIp_flag h.ipMatch hpos fun h16 => ipTests_getD h16 hn
  ipBcast := dstIp_flag h.ipBcast hpos fun h16 => onesTests_getD (by omega)
  ipSubnet := dstIp_flag h.ipSubnet hpos fun h16 => ipTests_getD h16 hn
  total := by
    unfold IpRegs.next
    dsimp only
    split_ifs with hin
    · rw [show 3 - n = 2 - 1 - (n - 2) by omega]
      exact captured_setByte h.total (by decide) (by omega) (by omega)
    · exact h.total.snoc_of_out (by omega)
  srcIp := by
    unfold IpRegs.next
    dsimp only
    split_ifs with hin
    · rw [show 15 - n = 4 - 1 - (n - 12) by omega]
      exact captured_setByte h.srcIp (by decide) (by omega) (by omega)
    · exact h.srcIp.snoc_of_out (by omega)

theorem IpScan.totalLength_eq {r : IpRegs} (h : IpScan p r bs) (hlen : 18 ≤ bs.length) :
    r.totalLength.toNat = totalLength bs :=
  h.total.eq_beNat r.totalLength.isLt (by omega)

theorem and_0x3f_eq_zero_iff {x : UInt8} : (x &&& 0x3f == 0x00) = true ↔ x.toNat % 64 = 0 := by
  rw [beq_iff_eq, ← UInt8.toNat_inj, UInt8.toNat_and]
  exact iff_of_eq (congrArg (· = 0) (Nat.and_two_pow_sub_one_eq_mod x.toNat 6))

theorem fits_ipTests_iff (hlen : 24 ≤ bs.length) : Fits 14 ipTests bs ↔
    slice bs 14 1 = [0x45] ∧ beNat (slice bs 20 2) % 2 ^ 14 = 0 ∧ slice bs 23 1 = [17] := by
  have hfrag : beNat (slice bs 20 2) % 2 ^ 14 = 0 ↔
      (bs[20] &&& 0x3f == 0x00) = true ∧ (bs[21] == 0x00) = true := by
    rw [slice_two (by omega), and_0x3f_eq_zero_iff, beq_iff_eq, ← UInt8.toNat_inj]
    have := (bs[21]).toNat_lt
    simp [beNat]
    omega
  rw [hfrag, slice_one (by omega), slice_one (by omega), List.singleton_inj, List.singleton_inj]
  constructor
  · intro h
    have hget {k : Nat} (hk : k < 10) {t : UInt8 → Bool} (ht : ipTests[k]? = some t) :
        t bs[14 + k] = true :=
      h k t _ ht (List.getElem?_eq_getElem (by omega))
    exact ⟨eq_of_beq (hget (k := 0) (by omega) rfl),
      ⟨hget (k := 6) (by omega) rfl, hget (k := 7) (by omega) rfl⟩,
      eq_of_beq (hget (k := 9) (by omega) rfl)⟩
  · rintro ⟨h14, ⟨h20, h21⟩, h23⟩ k t c ht hc
    have hk : k < 10 := (List.getElem?_eq_some_iff.mp ht).1
    obtain ⟨hlt, rfl⟩ := List.getElem?_eq_some_iff.mp hc
    interval_cases k <;> cases ht
    · exact beq_iff_eq.mpr h14
    all_goals first | rfl | exact h20 | exact h21 | exact beq_iff_eq.mpr h23

theorem IpScan.ok_iff {r : IpRegs} (h : IpScan p r bs) (hlen : 34 ≤ bs.length) :
    (r.ipOk && 28 ≤ r.totalLength && (r.dstIpMatch || r.dstIpBcast || r.dstIpSubnetBcast)) = true ↔
      IpOk p bs := by
  have htotal := h.totalLength_eq (by omega)
  have hle : 28 ≤ r.totalLength ↔ 28 ≤ totalLength bs := by
    rw [← htotal, BitVec.le_def]
    rfl
  unfold IpOk
  rw [Bool.and_eq_true, Bool.and_eq_true, Bool.or_eq_true, Bool.or_eq_true, h.ipOk, h.ipMatch,
    h.ipBcast, h.ipSubnet, decide_eq_true_iff, hle, fits_ipTests_iff (by omega),
    fits_exactly_iff (by simp [ipBytes]; omega), fits_exactly_iff (by simp; omega),
    fits_exactly_iff (by simp [ipBytes]; omega), or_assoc, and_assoc, and_assoc, and_assoc]
  rfl

theorem ipHeaderByte_same : SameStore (ipHeaderByte p s acc b) acc := by
  have h : SameStore (ipField p s acc b) acc := ipField_same
  unfold ipHeaderByte dropPacket
  constructor <;> (dsimp only; split_ifs)
  all_goals first | exact h.bufs | exact h.out | exact h.writeBuf | exact h.remote

theorem ipHeaderByte_of_ne (hn : s.parser.index ≠ 19) : (ipHeaderByte p s acc b).parser =
    { (ipField p s acc b).parser with index := s.parser.index + 1 } := by
  simp only [ipHeaderByte, if_neg hn]

/-- The test behind the last byte of the header, in terms of the registers after it. -/
theorem ipHeaderByte_last (hn : s.parser.index = 19) :
    (ipHeaderByte p s acc b).parser =
      let r := s.parser.ipRegs.next p 19 b
      if (r.ipOk && 28 ≤ r.totalLength &&
          (r.dstIpMatch || r.dstIpBcast || r.dstIpSubnetBcast)) = true then
        { (ipField p s acc b).parser with state := .udp, index := 0 }
      else { (ipField p s acc b).parser with state := .drop } := by
  have hle : decide (28 ≤ s.parser.ipTotalLength) = !decide (s.parser.ipTotalLength < 28) := by
    rw [← decide_not]
    exact decide_eq_decide.mpr (by bv_omega)
  have hcond : ∀ c short m₁ m₂ m₃ : Bool, (!c || short || !(m₁ || m₂ || m₃)) =
      !((c && true) && !short && (m₁ || m₂ || m₃)) := by decide
  simp only [ipHeaderByte, if_pos hn, dropPacket]
  rw [hcond, ← hle, apply_ite Regs.parser]
  simp only [Bool.not_eq_true']
  rw [← ite_not]
  simp only [Bool.not_eq_false]
  rfl

/-! ## The UDP header -/

theorem udpField_same : SameStore (udpField p s acc b) acc := by
  unfold udpField
  constructor <;> (dsimp only; split <;> (try split_ifs) <;> rfl)

theorem udpField_other : (udpField p s acc b).parser.ethRegs = acc.parser.ethRegs ∧
    (udpField p s acc b).parser.ipRegs = acc.parser.ipRegs ∧
    (udpField p s acc b).parser.state = acc.parser.state := by
  unfold udpField
  refine ⟨?_, ?_, ?_⟩ <;> (dsimp only; split <;> (try split_ifs) <;> rfl)

/-- The registers after byte `n` of the header. -/
def UdpRegs.next (p : Params) (r : UdpRegs) (n : Nat) (b : UInt8) : UdpRegs where
  portMatch := r.portMatch &&
    (n < 2 || (exactly (portBytes p.localPort)).getD (n - 2) (fun _ => true) b)
  srcPort := if n < 2 then setByte r.srcPort (1 - n) b else r.srcPort
  udpLength := if 4 ≤ n ∧ n < 6 then setByte r.udpLength (5 - n) b else r.udpLength

theorem udpField_next {n : Nat} (hindex : s.parser.index.toNat = n) (hn : n < 8) :
    (udpField p s acc b).parser.udpRegs = acc.parser.udpRegs.next p n b := by
  unfold udpField
  rw [hindex]
  interval_cases n <;> simp [UdpRegs.next, Parser.udpRegs, exactly, portBytes]
  all_goals split_ifs <;> simp_all

theorem UdpScan.next {r : UdpRegs} {n : Nat} (h : UdpScan p r bs) (hpos : bs.length = 34 + n)
    (hn : n < 8) : UdpScan p (r.next p n b) (bs ++ [b]) where
  portMatch := by
    unfold UdpRegs.next
    dsimp only
    rcases Nat.lt_or_ge n 2 with hlt | hge
    · rw [fits_snoc_of_out (.inl (by omega)), decide_eq_true hlt, Bool.true_or, Bool.and_true,
        h.portMatch]
    · rw [decide_eq_false (by omega), Bool.false_or]
      exact flag_snoc h.portMatch (by omega) (by rw [show bs.length - 36 = n - 2 by omega])
  srcPort := by
    unfold UdpRegs.next
    dsimp only
    split_ifs with hin
    · rw [show 1 - n = 2 - 1 - n by omega]
      exact captured_setByte h.srcPort (by decide) (by omega) (by omega)
    · exact h.srcPort.snoc_of_out (by omega)
  udpLength := by
    unfold UdpRegs.next
    dsimp only
    split_ifs with hin
    · rw [show 5 - n = 2 - 1 - (n - 4) by omega]
      exact captured_setByte h.udpLength (by decide) (by omega) (by omega)
    · exact h.udpLength.snoc_of_out (by omega)

theorem UdpScan.udpLength_eq {r : UdpRegs} (h : UdpScan p r bs) (hlen : 40 ≤ bs.length) :
    r.udpLength.toNat = UdpIpv4Rx.udpLength bs :=
  h.udpLength.eq_beNat r.udpLength.isLt (by omega)

theorem UdpScan.ok_iff {r : UdpRegs} {t : BitVec 16} (h : UdpScan p r bs)
    (ht : t.toNat = totalLength bs) (ht' : 28 ≤ totalLength bs) (hlen : 40 ≤ bs.length) :
    (r.portMatch && 8 ≤ r.udpLength && r.udpLength ≤ t - 20) = true ↔ UdpOk p bs := by
  have hudp := h.udpLength_eq hlen
  have hmin : 8 ≤ r.udpLength ↔ 8 ≤ UdpIpv4Rx.udpLength bs := by
    rw [← hudp, BitVec.le_def]
    rfl
  have hmax : r.udpLength ≤ t - 20 ↔ UdpIpv4Rx.udpLength bs ≤ totalLength bs - 20 := by
    rw [← hudp, ← ht]
    rw [← ht] at ht'
    bv_omega
  unfold UdpOk
  rw [Bool.and_eq_true, Bool.and_eq_true, h.portMatch, decide_eq_true_iff, decide_eq_true_iff,
    hmin, hmax, fits_exactly_iff (by simp [portBytes]; omega), and_assoc]
  rfl

theorem udpByte_of_ne (hn : s.parser.index ≠ 7) : SameStore (udpByte p s acc b) acc ∧
    (udpByte p s acc b).parser =
      { (udpField p s acc b).parser with index := s.parser.index + 1 } := by
  have h : SameStore (udpField p s acc b) acc := udpField_same
  simp only [udpByte, if_neg hn]
  exact ⟨⟨h.bufs, h.out, h.writeBuf, h.remote⟩, trivial⟩

theorem udpField_seven (hn : s.parser.index = 7) : udpField p s acc b = acc := by
  simp only [udpField, hn]
  rfl

/-- The test behind the last byte of the header. -/
def udpAccepts (q : Parser) : Bool :=
  q.udpPortMatch && 8 ≤ q.udpLength && q.udpLength ≤ q.ipTotalLength - 20

theorem not_udpAccepts {q : Parser} : (!q.udpPortMatch || q.udpLength < 8 ||
    q.udpLength > q.ipTotalLength - 20) = !udpAccepts q := by
  have h₁ : decide (8 ≤ q.udpLength) = !decide (q.udpLength < 8) := by
    rw [← decide_not]
    exact decide_eq_decide.mpr (by bv_omega)
  have h₂ : decide (q.udpLength ≤ q.ipTotalLength - 20) =
      !decide (q.udpLength > q.ipTotalLength - 20) := by
    rw [← decide_not]
    exact decide_eq_decide.mpr BitVec.not_lt.symm
  rw [udpAccepts, h₁, h₂]
  simp

theorem udpByte_refused (hn : s.parser.index = 7) (h : udpAccepts s.parser = false) :
    SameStore (udpByte p s acc b) acc ∧ (udpByte p s acc b).parser.state = .drop := by
  simp only [udpByte, if_pos hn, udpField_seven hn, not_udpAccepts, h, Bool.not_false, if_true,
    dropPacket]
  exact ⟨by constructor <;> (dsimp only; split_ifs <;> rfl), trivial⟩

theorem udpByte_empty (hn : s.parser.index = 7) (h : udpAccepts s.parser = true)
    (h8 : s.parser.udpLength = 8) :
    (udpByte p s acc b).parser.state = .drop ∧ (udpByte p s acc b).bufs = acc.bufs ∧
      (udpByte p s acc b).out = acc.out ∧ (udpByte p s acc b).writeBuf = acc.writeBuf ∧
      (udpByte p s acc b).remote = s.parser.packetSrc := by
  simp only [udpByte, if_pos hn, udpField_seven hn, not_udpAccepts, h, Bool.not_true,
    Bool.false_eq_true, if_false, if_pos h8]
  refine ⟨trivial, ?_, ?_, ?_, trivial⟩ <;> (split_ifs <;> rfl)

theorem udpByte_payload (hn : s.parser.index = 7) (h : udpAccepts s.parser = true)
    (h8 : s.parser.udpLength ≠ 8) : SameStore (udpByte p s acc b) acc ∧
      (udpByte p s acc b).parser = { acc.parser with
        payloadRemaining := s.parser.udpLength - 8
        payloadLen := 0
        state := .payload
        index := 0 } := by
  simp only [udpByte, if_pos hn, udpField_seven hn, not_udpAccepts, h, Bool.not_true,
    Bool.false_eq_true, if_false, if_neg h8]
  refine ⟨?_, ?_⟩
  · constructor <;> (dsimp only; split_ifs <;> rfl)
  · split_ifs <;> rfl

/-! ## The parser as a whole -/

structure Scan (p : Params) (q : Parser) (bs : List UInt8) : Prop where
  eth : EthScan p q.ethRegs bs
  ip : IpScan p q.ipRegs bs
  udp : UdpScan p q.udpRegs bs

/-- What the parser knows of a frame after its bytes `bs`; `mem` is the memory of the buffer
that it writes. -/
inductive Parsed (p : Params) (q : Parser) (mem : Nat → UInt8) (bs : List UInt8) : Prop
  | eth (hstate : q.state = .eth) (scan : Scan p q bs) (hindex : bs.length = q.index.toNat)
      (hlt : q.index.toNat < 14)
  | ip (hstate : q.state = .ip) (scan : Scan p q bs) (hindex : bs.length = 14 + q.index.toNat)
      (hlt : q.index.toNat < 20) (heth : EthOk p bs)
  | udp (hstate : q.state = .udp) (scan : Scan p q bs) (hindex : bs.length = 34 + q.index.toNat)
      (hlt : q.index.toNat < 8) (heth : EthOk p bs) (hip : IpOk p bs)
  | payload (hstate : q.state = .payload) (hsource : q.packetSrc = source bs)
      (heth : EthOk p bs) (hip : IpOk p bs) (hudp : UdpOk p bs)
      (hlen : bs.length = 42 + q.payloadLen.toNat)
      (hsum : q.payloadLen.toNat + q.payloadRemaining.toNat = payloadLength bs)
      (hpos : 0 < q.payloadRemaining.toNat)
      (hmem : slice bs 42 q.payloadLen.toNat = (List.range q.payloadLen.toNat).map mem)
  | drop (hstate : q.state = .drop) (hsettled : Settled p bs)

theorem Scan.source_eq {q : Parser} (h : Scan p q bs) (hlen : 36 ≤ bs.length) :
    q.packetSrc = source bs := by
  have hmac := h.eth.srcMac.eq_beNat q.packetSrc.mac.isLt (by omega)
  have hip := h.ip.srcIp.eq_beNat q.packetSrc.ip.isLt (by omega)
  have hport := h.udp.srcPort.eq_beNat q.packetSrc.port.isLt (by omega)
  unfold source
  rw [← hmac, ← hip, ← hport]
  simp [Parser.ethRegs, Parser.ipRegs, Parser.udpRegs]

/-- Only the memory of the write buffer may have changed. -/
structure Untouched (s acc r : Regs) : Prop where
  bufs : ∃ mem, r.bufs = Function.update acc.bufs s.writeBuf { acc.bufs s.writeBuf with mem := mem }
  out : r.out = acc.out
  writeBuf : r.writeBuf = acc.writeBuf
  remote : r.remote = acc.remote

theorem SameStore.untouched {r : Regs} (h : SameStore r acc) : Untouched s acc r where
  bufs := ⟨(acc.bufs s.writeBuf).mem, by rw [h.bufs]; exact (Function.update_eq_self _ _).symm⟩
  out := h.out
  writeBuf := h.writeBuf
  remote := h.remote

/-- What one byte of a frame can do: nothing that is visible outside the parser, an empty
datagram that sets the remote endpoint, or a payload that is handed to the output stage. -/
inductive Outcome (p : Params) (s acc r : Regs) (bs : List UInt8) (b : UInt8) : Prop
  | parsing (hsame : Untouched s acc r)
      (hparsed : Parsed p r.parser (r.bufs s.writeBuf).mem (bs ++ [b]))
      (hdatagram : datagram? p (bs ++ [b]) = datagram? p bs)
  | empty (d : Datagram) (hstate : r.parser.state = .drop) (hsettled : Settled p (bs ++ [b]))
      (hbefore : datagram? p bs = none) (hafter : datagram? p (bs ++ [b]) = some d)
      (hpayload : d.payload = []) (hbufs : r.bufs = acc.bufs) (hout : r.out = acc.out)
      (hwrite : r.writeBuf = acc.writeBuf) (hremote : r.remote = d.source)
  | packet (d : Datagram) (hstate : r.parser.state = .drop) (hsettled : Settled p (bs ++ [b]))
      (hbefore : datagram? p bs = none) (hafter : datagram? p (bs ++ [b]) = some d)
      (hpos : d.payload ≠ [])
      (hbufs : ∃ len mem, r.bufs = Function.update acc.bufs s.writeBuf ⟨len, true, mem⟩ ∧
        d.payload = (List.range len.toNat).map mem)
      (hout : r.out = acc.out)
      (hwrite : r.writeBuf = if bufBusy s (!s.writeBuf) then acc.writeBuf else !s.writeBuf)
      (hremote : r.remote = d.source)

/-! ## One byte -/

theorem datagram?_short_snoc (hlen : bs.length < 41) :
    datagram? p (bs ++ [b]) = datagram? p bs := by
  rw [datagram?_eq_none_of_short (by simp; omega), datagram?_eq_none_of_short (by omega)]

theorem ethByte_outcome (hparser : acc.parser = s.parser) (hstate : s.parser.state = .eth)
    (scan : Scan p s.parser bs) (hindex : bs.length = s.parser.index.toNat)
    (hlt : s.parser.index.toNat < 14) : Outcome p s acc (ethByte p s acc b) bs b := by
  have heth := ethByte_scan (b := b) hparser hstate hindex.symm (by omega) scan.eth
  obtain ⟨hip, hudp⟩ := @ethByte_other p b s acc
  have hscan : Scan p (ethByte p s acc b).parser (bs ++ [b]) := by
    refine ⟨heth, ?_, ?_⟩
    · rw [hip, hparser]
      exact scan.ip.keep (.inl (by omega))
    · rw [hudp, hparser]
      exact scan.udp.keep (.inl (by omega))
  refine .parsing ethByte_same.untouched ?_ (datagram?_short_snoc (by omega))
  have hsnoc : (bs ++ [b]).length = s.parser.index.toNat + 1 := by simp [hindex]
  rcases Nat.lt_or_ge bs.length 13 with h13 | h13
  · have hnext : (ethByte p s acc b).parser.state = .eth ∧
        (ethByte p s acc b).parser.index = s.parser.index + 1 := by
      rcases Nat.lt_or_ge bs.length 6 with h6 | h6
      · rw [ethByte_mac hstate (by bv_omega), hparser]
        exact ⟨hstate, rfl⟩
      rcases Nat.lt_or_ge bs.length 12 with h12 | h12
      · rw [ethByte_src hstate (by bv_omega) (by bv_omega), hparser]
        exact ⟨hstate, rfl⟩
      · rw [ethByte_type hstate (by bv_omega), hparser]
        exact ⟨hstate, rfl⟩
    have hinc : (s.parser.index + 1).toNat = s.parser.index.toNat + 1 := by bv_omega
    exact .eth hnext.1 hscan (by rw [hnext.2, hinc, hsnoc]) (by rw [hnext.2]; omega)
  · have hlong : 14 ≤ (bs ++ [b]).length := by omega
    have hok := heth.ok_iff hlong
    have hlast := @ethByte_last p b s acc (by bv_omega)
    have hsame : (ethByte p s acc b).parser.ethRegs = ⟨s.parser.dstMacMatch,
        s.parser.dstMacBcast, s.parser.ethertypeIpv4 && b == 0x00, s.parser.packetSrc.mac⟩ := by
      rw [hlast, hparser]
      split_ifs <;> rfl
    rw [hsame] at hok
    by_cases hpass : ((p.acceptAnyDestMac || s.parser.dstMacMatch || s.parser.dstMacBcast) &&
        (s.parser.ethertypeIpv4 && b == 0x00)) = true
    · rw [if_pos hpass] at hlast
      have hzero : (ethByte p s acc b).parser.index.toNat = 0 := by rw [hlast]; rfl
      exact .ip (by rw [hlast]) hscan (by omega) (by omega) (hok.mp hpass)
    · rw [if_neg hpass] at hlast
      exact .drop (by rw [hlast]) (settled_of_not_ethOk hlong fun h => hpass (hok.mpr h))

theorem ipHeaderByte_outcome (hparser : acc.parser = s.parser) (hstate : s.parser.state = .ip)
    (scan : Scan p s.parser bs) (hindex : bs.length = 14 + s.parser.index.toNat)
    (hlt : s.parser.index.toNat < 20) (heth : EthOk p bs) :
    Outcome p s acc (ipHeaderByte p s acc b) bs b := by
  have hsnoc : (bs ++ [b]).length = 14 + s.parser.index.toNat + 1 := by simp [hindex]
  obtain ⟨hfeth, hfudp, hfstate⟩ := @ipField_other p b s acc
  have hfip := @ipField_next p b s acc _ rfl hlt
  rw [hparser] at hfeth hfudp hfip hfstate
  have hip : IpScan p (s.parser.ipRegs.next p s.parser.index.toNat b) (bs ++ [b]) :=
    scan.ip.next hindex hlt
  have hfield : Scan p (ipField p s acc b).parser (bs ++ [b]) := by
    refine ⟨?_, ?_, ?_⟩
    · rw [hfeth]
      exact scan.eth.keep (by omega)
    · rw [hfip]
      exact hip
    · rw [hfudp]
      exact scan.udp.keep (.inl (by omega))
  have heth' : EthOk p (bs ++ [b]) := (ethOk_append (by omega)).mpr heth
  refine .parsing ipHeaderByte_same.untouched ?_ (datagram?_short_snoc (by omega))
  by_cases hn : s.parser.index = 19
  · have hn' : s.parser.index.toNat = 19 := by rw [hn]; rfl
    have hlong : 34 ≤ (bs ++ [b]).length := by omega
    have hok := hip.ok_iff hlong
    rw [hn'] at hok
    have hlast := @ipHeaderByte_last p b s acc hn
    dsimp only at hlast
    split_ifs at hlast with hpass
    · have hzero : (ipHeaderByte p s acc b).parser.index.toNat = 0 := by rw [hlast]; rfl
      have hscan : Scan p (ipHeaderByte p s acc b).parser (bs ++ [b]) := by
        rw [hlast]
        exact ⟨hfield.eth, hfield.ip, hfield.udp⟩
      exact .udp (by rw [hlast]) hscan (by omega) (by omega) heth' (hok.mp hpass)
    · exact .drop (by rw [hlast]) (settled_of_not_ipOk hlong fun h => hpass (hok.mpr h))
  · have hinc : (s.parser.index + 1).toNat = s.parser.index.toNat + 1 := by bv_omega
    have hlt' : s.parser.index.toNat + 1 < 20 := by bv_omega
    rw [ipHeaderByte_of_ne hn]
    exact .ip (hfstate.trans hstate) ⟨hfield.eth, hfield.ip, hfield.udp⟩
      (by rw [hsnoc, hinc, Nat.add_assoc]) (by rw [hinc]; exact hlt') heth'

theorem udpByte_outcome (hparser : acc.parser = s.parser) (hstate : s.parser.state = .udp)
    (scan : Scan p s.parser bs) (hindex : bs.length = 34 + s.parser.index.toNat)
    (hlt : s.parser.index.toNat < 8) (heth : EthOk p bs) (hip : IpOk p bs) :
    Outcome p s acc (udpByte p s acc b) bs b := by
  have hsnoc : (bs ++ [b]).length = 34 + s.parser.index.toNat + 1 := by simp [hindex]
  have heth' : EthOk p (bs ++ [b]) := (ethOk_append (by omega)).mpr heth
  have hip' : IpOk p (bs ++ [b]) := (ipOk_append (by omega)).mpr hip
  by_cases hn : s.parser.index = 7
  · have hlen : bs.length = 41 := by rw [hindex, hn]; rfl
    have hsnoc : (bs ++ [b]).length = 42 := by simp [hlen]
    have hnone : datagram? p bs = none := datagram?_eq_none_of_short (by omega)
    have htotal := scan.ip.totalLength_eq (by omega)
    have hudp : s.parser.udpLength.toNat = udpLength bs := scan.udp.udpLength_eq (by omega)
    have hpayload : payloadLength (bs ++ [b]) = s.parser.udpLength.toNat - 8 := by
      rw [payloadLength_append (by omega), payloadLength, hudp]
    have hok : udpAccepts s.parser = true ↔ UdpOk p (bs ++ [b]) :=
      (scan.udp.ok_iff htotal hip.2.2.2.1 (by omega)).trans (udpOk_append (by omega)).symm
    by_cases hpass : udpAccepts s.parser = true
    · have hudp' : UdpOk p (bs ++ [b]) := hok.mp hpass
      have hmin : 8 ≤ s.parser.udpLength.toNat := by
        rw [hudp, ← udpLength_append (by omega)]
        exact hudp'.2.1
      have hsource : s.parser.packetSrc = source (bs ++ [b]) := by
        rw [source_append (by omega), scan.source_eq (by omega)]
      by_cases h8 : s.parser.udpLength = 8
      · have hzero : payloadLength (bs ++ [b]) = 0 := by rw [hpayload, h8]; rfl
        obtain ⟨hstate', hbufs, hout, hwrite, hremote⟩ :=
          @udpByte_empty p b s acc hn hpass h8
        have hmax : payloadLength (bs ++ [b]) ≤ p.maxPayloadBytes := by omega
        exact .empty ⟨source (bs ++ [b]), slice (bs ++ [b]) 42 (payloadLength (bs ++ [b]))⟩ hstate'
          (settled_of_complete heth' hip' hudp' hmax (by omega)) hnone
          (datagram?_of_complete heth' hip' hudp' hmax (by omega)) (by simp [hzero, slice]) hbufs
          hout hwrite (hremote.trans hsource)
      · obtain ⟨hsame, hnext⟩ := @udpByte_payload p b s acc hn hpass h8
        have hrem : (s.parser.udpLength - 8).toNat = s.parser.udpLength.toNat - 8 := by bv_omega
        have hpos : 0 < s.parser.udpLength.toNat - 8 := by bv_omega
        refine .parsing hsame.untouched ?_ ?_
        · rw [hnext, hparser]
          exact .payload rfl hsource heth' hip' hudp' hsnoc
            ((Nat.zero_add _).trans (hrem.trans hpayload.symm)) (hrem ▸ hpos) (by simp [slice])
        · rw [hnone, datagram?_of_incomplete (by omega)]
    · obtain ⟨hsame, hdrop⟩ :=
        @udpByte_refused p b s acc hn (by simpa using hpass)
      have hbad : ¬ UdpOk p (bs ++ [b]) := fun h => hpass (hok.mpr h)
      exact .parsing hsame.untouched (.drop hdrop (settled_of_not_udpOk (by omega) hbad))
        (by rw [hnone, datagram?_of_not_udpOk hbad])
  · have hinc : (s.parser.index + 1).toNat = s.parser.index.toNat + 1 := by bv_omega
    have hlt' : s.parser.index.toNat + 1 < 8 := by bv_omega
    obtain ⟨hfeth, hfip, hfstate⟩ := @udpField_other p b s acc
    have hfudp := @udpField_next p b s acc _ rfl hlt
    rw [hparser] at hfeth hfip hfudp hfstate
    obtain ⟨hsame, hnext⟩ := @udpByte_of_ne p b s acc hn
    have hfield : Scan p (udpField p s acc b).parser (bs ++ [b]) := by
      refine ⟨?_, ?_, ?_⟩
      · rw [hfeth]
        exact scan.eth.keep (by omega)
      · rw [hfip]
        exact scan.ip.keep (.inr (by omega))
      · rw [hfudp]
        exact scan.udp.next hindex hlt
    refine .parsing hsame.untouched ?_ (datagram?_short_snoc (by omega))
    rw [hnext]
    exact .udp (hfstate.trans hstate) ⟨hfield.eth, hfield.ip, hfield.udp⟩
      (by rw [hsnoc, hinc, Nat.add_assoc]) (by rw [hinc]; exact hlt') heth' hip'

/-- One more byte in the memory. -/
theorem map_range_update {mem : Nat → UInt8} {n : Nat} :
    (List.range (n + 1)).map (Function.update mem n b) = (List.range n).map mem ++ [b] := by
  rw [List.range_succ, List.map_append, List.map_singleton, Function.update_self]
  congr 1
  refine List.map_congr_left fun k hk => Function.update_of_ne ?_ _ _
  have := List.mem_range.mp hk
  omega

theorem packetComplete_eq : (packetComplete s acc).parser.state = .drop ∧
    (packetComplete s acc).remote = s.parser.packetSrc ∧
    (packetComplete s acc).out = acc.out ∧
    (packetComplete s acc).bufs = Function.update acc.bufs s.writeBuf
      ⟨s.parser.payloadLen + 1, true, (acc.bufs s.writeBuf).mem⟩ ∧
    (packetComplete s acc).writeBuf =
      if bufBusy s (!s.writeBuf) then acc.writeBuf else !s.writeBuf := by
  unfold packetComplete
  dsimp only
  cases bufBusy s (!s.writeBuf)
  · exact ⟨rfl, rfl, rfl, rfl, rfl⟩
  · exact ⟨rfl, rfl, rfl, rfl, rfl⟩

theorem payloadByte_outcome (hparser : acc.parser = s.parser)
    (hmems : (acc.bufs s.writeBuf).mem = (s.bufs s.writeBuf).mem)
    (hstate : s.parser.state = .payload) (hsource : s.parser.packetSrc = source bs)
    (heth : EthOk p bs) (hip : IpOk p bs) (hudp : UdpOk p bs)
    (hlen : bs.length = 42 + s.parser.payloadLen.toNat)
    (hsum : s.parser.payloadLen.toNat + s.parser.payloadRemaining.toNat = payloadLength bs)
    (hpos : 0 < s.parser.payloadRemaining.toNat)
    (hmem : slice bs 42 s.parser.payloadLen.toNat =
      (List.range s.parser.payloadLen.toNat).map (s.bufs s.writeBuf).mem) :
    Outcome p s acc (payloadByte p s acc b) bs b := by
  have hsnoc : (bs ++ [b]).length = 42 + s.parser.payloadLen.toNat + 1 := by simp [hlen]
  have heth' : EthOk p (bs ++ [b]) := (ethOk_append (by omega)).mpr heth
  have hip' : IpOk p (bs ++ [b]) := (ipOk_append (by omega)).mpr hip
  have hudp' : UdpOk p (bs ++ [b]) := (udpOk_append (by omega)).mpr hudp
  have hlength : payloadLength (bs ++ [b]) = payloadLength bs := payloadLength_append (by omega)
  have hnone : datagram? p bs = none := datagram?_of_incomplete (by omega)
  have hne : s.parser.payloadRemaining ≠ 0 := by bv_omega
  have hbound : payloadLength bs < 2 ^ 16 := by
    have : udpLength bs < 256 ^ 2 := beNat_slice_lt
    unfold payloadLength
    omega
  by_cases hroom : s.parser.payloadLen.toNat < p.maxPayloadBytes
  · have hinc : (s.parser.payloadLen + 1).toNat = s.parser.payloadLen.toNat + 1 := by bv_omega
    have hstored : slice (bs ++ [b]) 42 (s.parser.payloadLen.toNat + 1) =
        (List.range (s.parser.payloadLen.toNat + 1)).map
          (Function.update (s.bufs s.writeBuf).mem s.parser.payloadLen.toNat b) := by
      rw [slice_succ (by omega), hmem, map_range_update]
    -- the registers with the byte stored
    obtain ⟨acc', hacc', hstep⟩ : ∃ acc' : Regs, acc' = { acc with
          bufs := Function.update acc.bufs s.writeBuf { acc.bufs s.writeBuf with
            mem := Function.update (acc.bufs s.writeBuf).mem s.parser.payloadLen.toNat b }
          parser.payloadLen := s.parser.payloadLen + 1
          parser.payloadRemaining := s.parser.payloadRemaining - 1 } ∧
        payloadByte p s acc b =
          if s.parser.payloadRemaining = 1 then packetComplete s acc' else acc' :=
      ⟨_, rfl, by simp only [payloadByte, if_pos hne, if_pos hroom]⟩
    have hmem' : (acc'.bufs s.writeBuf).mem =
        Function.update (s.bufs s.writeBuf).mem s.parser.payloadLen.toNat b := by
      rw [hacc', ← hmems]
      simp
    by_cases hlast : s.parser.payloadRemaining = 1
    · rw [if_pos hlast] at hstep
      have hfull : payloadLength (bs ++ [b]) = s.parser.payloadLen.toNat + 1 := by
        rw [hlength, ← hsum, hlast]
        rfl
      obtain ⟨hdrop, hremote, hout, hbufs, hwrite⟩ := @packetComplete_eq s acc'
      rw [← hstep] at hdrop hremote hout hbufs hwrite
      have hmax : payloadLength (bs ++ [b]) ≤ p.maxPayloadBytes := by omega
      refine .packet ⟨source (bs ++ [b]), slice (bs ++ [b]) 42 (payloadLength (bs ++ [b]))⟩ hdrop
        (settled_of_complete heth' hip' hudp' hmax (by omega)) hnone
        (datagram?_of_complete heth' hip' hudp' hmax (by omega)) ?_
        ⟨s.parser.payloadLen + 1, (acc'.bufs s.writeBuf).mem, ?_, ?_⟩ ?_ ?_ ?_
      · rw [hfull, hstored]
        simp
      · rw [hbufs, hacc']
        simp
      · rw [hfull, hstored, hinc, hmem']
      · rw [hout, hacc']
      · rw [hwrite, hacc']
      · rw [hremote, hsource, source_append (by omega)]
    · rw [if_neg hlast] at hstep
      rw [hstep]
      have hdec : (s.parser.payloadRemaining - 1).toNat =
          s.parser.payloadRemaining.toNat - 1 := by bv_omega
      have hmore : 1 < s.parser.payloadRemaining.toNat := by bv_omega
      refine .parsing ⟨⟨_, by rw [hacc']⟩, by rw [hacc'], by rw [hacc'], by rw [hacc']⟩ ?_
        (by rw [hnone, datagram?_of_incomplete (by omega)])
      rw [hmem', hacc', hparser]
      refine .payload hstate ?_ heth' hip' hudp' ?_ ?_ ?_ ?_
      · exact hsource.trans (source_append (by omega)).symm
      · exact hsnoc.trans (by rw [hinc, Nat.add_assoc])
      · exact (congrArg₂ _ hinc hdec).trans (by omega)
      · exact hdec ▸ Nat.sub_pos_of_lt hmore
      · exact hinc ▸ hstored
  · have hlong : p.maxPayloadBytes < payloadLength (bs ++ [b]) := by omega
    have hdrop : payloadByte p s acc b = dropPacket { acc with diag.parserError := true } := by
      simp only [payloadByte, if_pos hne, if_neg hroom]
    rw [hdrop]
    have hsame : SameStore (dropPacket { acc with diag.parserError := true }) acc :=
      ⟨rfl, rfl, rfl, rfl⟩
    exact .parsing hsame.untouched (.drop rfl (settled_of_long (by omega) hlong))
      (by rw [hnone, datagram?_of_long hlong])

/-- **One byte of a frame that is being parsed.** -/
theorem byteStep_outcome (hparser : acc.parser = s.parser)
    (hmems : (acc.bufs s.writeBuf).mem = (s.bufs s.writeBuf).mem)
    (h : Parsed p s.parser (s.bufs s.writeBuf).mem bs) :
    Outcome p s acc (byteStep p s acc b) bs b := by
  unfold byteStep
  cases h with
  | eth hstate scan hindex hlt =>
    rw [hstate]
    exact ethByte_outcome hparser hstate scan hindex hlt
  | ip hstate scan hindex hlt heth =>
    rw [hstate]
    exact ipHeaderByte_outcome hparser hstate scan hindex hlt heth
  | udp hstate scan hindex hlt heth hip =>
    rw [hstate]
    exact udpByte_outcome hparser hstate scan hindex hlt heth hip
  | payload hstate hsource heth hip hudp hlen hsum hpos hmem =>
    rw [hstate]
    exact payloadByte_outcome hparser hmems hstate hsource heth hip hudp hlen hsum hpos hmem
  | drop hstate hsettled =>
    rw [hstate]
    have hsame : SameStore acc acc := ⟨rfl, rfl, rfl, rfl⟩
    exact .parsing hsame.untouched (.drop (by rw [hparser, hstate]) hsettled.append) (hsettled _)

end FpgaHashJoin.UdpIpv4Rx
