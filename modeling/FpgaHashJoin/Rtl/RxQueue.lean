import FpgaHashJoin.Rtl.UdpIpv4Rx

/-!
# The two payload buffers as a queue

What is in the buffers and still to be sent is a queue of at most two packets, `queued`. The
output stage takes its bytes from the front (`accepted_append_queued`), and a payload that is
complete comes to the back (`Queue.enqueue`): the buffer with fixed priority is never the
younger of two waiting ones, because the output stage has begun with the older one when the
younger is complete.
-/

namespace FpgaHashJoin.UdpIpv4Rx

/-- A payload as a packet of the stream. -/
def axisPacket : List UInt8 → List AxisByte
  | [] => []
  | b :: bs => ⟨b, bs.isEmpty⟩ :: axisPacket bs

def Buffer.packet (x : Buffer) : List AxisByte := axisPacket ((List.range x.len.toNat).map x.mem)

/-- The packet of a buffer that waits. -/
def Buffer.waiting (x : Buffer) : List AxisByte := if x.pending then x.packet else []

/-- What has still to be handed over: the rest of the packet that is being sent, and the
packets that wait. -/
def queued (s : Regs) : List AxisByte :=
  if s.out.active then
    (s.bufs s.out.readBuf).packet.drop s.out.readIndex.toNat ++ (s.bufs (!s.out.readBuf)).waiting
  else (s.bufs false).waiting ++ (s.bufs true).waiting

/-- The output stage shows the byte at `read_index` of the buffer it reads. -/
structure Queue (s : Regs) : Prop where
  valid : s.out.tvalid = s.out.active
  nonempty : ∀ k, (s.bufs k).pending = true → 0 < (s.bufs k).len.toNat
  pending : s.out.active = true → (s.bufs s.out.readBuf).pending = true
  length : s.out.active = true → s.out.readLen = (s.bufs s.out.readBuf).len
  index : s.out.active = true → s.out.readIndex.toNat < s.out.readLen.toNat
  data : s.out.active = true → s.out.tdata = (s.bufs s.out.readBuf).mem s.out.readIndex.toNat
  last : s.out.active = true → s.out.tlast = (s.out.readIndex.toNat + 1 == s.out.readLen.toNat)

variable {s acc r : Regs} {i : Pins} {w : Bool}

/-! ## Packets -/

theorem length_axisPacket (bs : List UInt8) : (axisPacket bs).length = bs.length := by
  induction bs with
  | nil => rfl
  | cons b bs ih => simp [axisPacket, ih]

theorem drop_axisPacket {bs : List UInt8} {k : Nat} (hk : k < bs.length) :
    (axisPacket bs).drop k = ⟨bs[k], k + 1 == bs.length⟩ :: (axisPacket bs).drop (k + 1) := by
  induction bs generalizing k with
  | nil => cases hk
  | cons b bs ih =>
    cases k with
    | zero => cases bs <;> simp [axisPacket]
    | succ k =>
      have hk : k < bs.length := by simpa using hk
      simpa [axisPacket] using ih hk

theorem Buffer.drop_packet {x : Buffer} {k : Nat} (hk : k < x.len.toNat) :
    x.packet.drop k = ⟨x.mem k, k + 1 == x.len.toNat⟩ :: x.packet.drop (k + 1) := by
  unfold Buffer.packet
  rw [drop_axisPacket (by simpa using hk)]
  simp

theorem Buffer.drop_packet_of_le {x : Buffer} {k : Nat} (hk : x.len.toNat ≤ k) :
    x.packet.drop k = [] := by
  refine List.drop_eq_nil_of_le ?_
  rw [Buffer.packet, length_axisPacket]
  simpa using hk

/-! ## The output stage -/

/-- What the output stage can do in a cycle. -/
inductive OutCase (s : Regs) (i : Pins) (r : Regs) : Prop
  | start (k : Bool) (hidle : s.out.active = false) (hpending : (s.bufs k).pending = true)
      (hfirst : k = true → (s.bufs false).pending = false) (hbufs : r.bufs = s.bufs)
      (hout : r.out =
        ⟨true, k, (s.bufs k).len, 0, (s.bufs k).mem 0, true, (s.bufs k).len == 1⟩)
  | idle (hidle : s.out.active = false) (hnone : ∀ k, (s.bufs k).pending = false)
      (hbufs : r.bufs = s.bufs) (hout : r.out = s.out)
  | finish (hactive : s.out.active = true) (hready : i.mPayloadTready = true)
      (hlast : s.out.tlast = true)
      (hbufs : r.bufs = Function.update s.bufs s.out.readBuf
        { s.bufs s.out.readBuf with pending := false })
      (hidle : r.out.active = false) (hvalid : r.out.tvalid = false)
  | advance (hactive : s.out.active = true) (hready : i.mPayloadTready = true)
      (hlast : s.out.tlast = false) (hbufs : r.bufs = s.bufs)
      (hout : r.out = { s.out with
        readIndex := s.out.readIndex + 1
        tdata := (s.bufs s.out.readBuf).mem (s.out.readIndex + 1).toNat
        tlast := s.out.readIndex + 1 == s.out.readLen - 1 })
  | stall (hactive : s.out.active = true) (hready : i.mPayloadTready = false)
      (hbufs : r.bufs = s.bufs) (hout : r.out = s.out)

theorem outputStep_cases (hvalid : s.out.tvalid = s.out.active) (hbufs : acc.bufs = s.bufs)
    (hout : acc.out = s.out) : OutCase s i (outputStep s acc i) := by
  unfold outputStep
  dsimp only
  cases hactive : s.out.active with
  | false =>
    rw [hvalid, hactive]
    simp only [Bool.not_false, Bool.and_true, if_true]
    split_ifs with h₀ h₁
    · exact .start false hactive h₀ (by simp) hbufs (by simp [startOutput])
    · exact .start true hactive h₁ (by simpa using h₀) hbufs (by simp [startOutput])
    · exact .idle hactive (by simpa using And.intro h₀ h₁) hbufs hout
  | true =>
    rw [hvalid, hactive]
    simp only [Bool.not_true, Bool.and_self, Bool.false_eq_true, if_false, Bool.true_and]
    split_ifs with hready hlast
    · exact .finish hactive hready hlast (by simp [hbufs]) rfl rfl
    · exact .advance hactive hready (by simpa using hlast) hbufs (by simp [hout])
    · exact .stall hactive (by simpa using hready) hbufs hout

theorem outputStep_other : (outputStep s acc i).parser = acc.parser ∧
    (outputStep s acc i).writeBuf = acc.writeBuf ∧ (outputStep s acc i).remote = acc.remote := by
  unfold outputStep startOutput
  refine ⟨?_, ?_, ?_⟩ <;> (dsimp only; split_ifs <;> rfl)

/-- The queue depends on the buffers and the output stage only. -/
theorem Queue.congr (hs : Queue s) (hbufs : r.bufs = s.bufs) (hout : r.out = s.out) :
    Queue r where
  valid := by rw [hout]; exact hs.valid
  nonempty := by rw [hbufs]; exact hs.nonempty
  pending := by rw [hout, hbufs]; exact hs.pending
  length := by rw [hout, hbufs]; exact hs.length
  index := by rw [hout]; exact hs.index
  data := by rw [hout, hbufs]; exact hs.data
  last := by rw [hout]; exact hs.last

theorem queued_congr (hbufs : r.bufs = s.bufs) (hout : r.out = s.out) : queued r = queued s := by
  rw [queued, queued, hbufs, hout]

/-- The byte on the stream is the next one of the queue. -/
theorem Queue.queued_of_active (hs : Queue s) (hactive : s.out.active = true) :
    queued s = ⟨s.out.tdata, s.out.tlast⟩ ::
      ((s.bufs s.out.readBuf).packet.drop (s.out.readIndex.toNat + 1) ++
        (s.bufs (!s.out.readBuf)).waiting) := by
  have hindex := hs.index hactive
  have hlength := hs.length hactive
  rw [hlength] at hindex
  rw [queued, if_pos hactive, Buffer.drop_packet hindex, List.cons_append, hs.data hactive,
    hs.last hactive, hlength]

namespace OutCase

variable (h : OutCase s i r)
include h

theorem mem_eq (k : Bool) : (r.bufs k).mem = (s.bufs k).mem := by
  cases h with
  | finish _ _ _ hbufs =>
    rw [hbufs]
    by_cases hk : k = s.out.readBuf
    · subst hk
      simp
    · simp [hk]
  | start _ _ _ _ hbufs | idle _ _ hbufs | advance _ _ _ hbufs | stall _ _ hbufs => rw [hbufs]

theorem not_busy (hw : bufBusy s w = false) : bufBusy r w = false := by
  rw [bufBusy, Bool.or_eq_false_iff] at hw ⊢
  obtain ⟨hpending, hread⟩ := hw
  cases h with
  | start k hidle hk hfirst hbufs hout =>
    rw [hbufs, hout]
    refine ⟨hpending, ?_⟩
    have : k ≠ w := by
      rintro rfl
      rw [hpending] at hk
      cases hk
    simpa using this
  | idle hidle hnone hbufs hout =>
    rw [hbufs, hout]
    exact ⟨hpending, hread⟩
  | finish hactive hready hlast hbufs hidle hvalid =>
    have hne : w ≠ s.out.readBuf := by
      rintro rfl
      simp [hactive] at hread
    rw [hbufs, hidle, Function.update_of_ne hne]
    exact ⟨hpending, rfl⟩
  | advance hactive hready hlast hbufs hout =>
    rw [hbufs, hout]
    exact ⟨hpending, hread⟩
  | stall hactive hready hbufs hout =>
    rw [hbufs, hout]
    exact ⟨hpending, hread⟩

/-- Behind the output stage no packet waits without being sent, except in the buffer that is
being written. -/
theorem idle_pending (hw : bufBusy s w = false) (hr : r.out.active = false) :
    (r.bufs (!w)).pending = false := by
  rw [bufBusy, Bool.or_eq_false_iff] at hw
  obtain ⟨hpending, hread⟩ := hw
  cases h with
  | start k hidle hk hfirst hbufs hout =>
    rw [hout] at hr
    cases hr
  | idle hidle hnone hbufs hout =>
    rw [hbufs]
    exact hnone _
  | finish hactive hready hlast hbufs hidle hvalid =>
    have hbuf : s.out.readBuf = !w := by
      rw [hactive, Bool.true_and, beq_eq_false_iff_ne] at hread
      exact Bool.eq_not.mpr hread
    rw [hbufs, hbuf]
    simp
  | advance hactive hready hlast hbufs hout =>
    rw [hout] at hr
    exact absurd hactive (by simpa using hr)
  | stall hactive hready hbufs hout =>
    rw [hout] at hr
    exact absurd hactive (by simpa using hr)

theorem queue (hs : Queue s) : Queue r := by
  cases h with
  | start k hidle hk hfirst hbufs hout =>
    have hlen := hs.nonempty k hk
    refine ⟨by rw [hout], by rw [hbufs]; exact hs.nonempty, ?_, ?_, ?_, ?_, ?_⟩
    · rw [hout, hbufs]
      exact fun _ => hk
    · rw [hout, hbufs]
      exact fun _ => rfl
    · rw [hout]
      exact fun _ => hlen
    · rw [hout, hbufs]
      exact fun _ => rfl
    · rw [hout]
      intro _
      rw [Bool.eq_iff_iff, beq_iff_eq, beq_iff_eq]
      bv_omega
  | idle hidle hnone hbufs hout => exact hs.congr hbufs hout
  | finish hactive hready hlast hbufs hidle hvalid =>
    have hoff : r.out.active ≠ true := by rw [hidle]; decide
    refine ⟨by rw [hvalid, hidle], ?_, fun h => absurd h hoff, fun h => absurd h hoff,
      fun h => absurd h hoff, fun h => absurd h hoff, fun h => absurd h hoff⟩
    intro k hk
    rw [hbufs] at hk ⊢
    by_cases hkr : k = s.out.readBuf
    · subst hkr
      simp at hk
    · rw [Function.update_of_ne hkr] at hk ⊢
      exact hs.nonempty k hk
  | advance hactive hready hlast hbufs hout =>
    have hindex := hs.index hactive
    have hmore : s.out.readIndex.toNat + 1 ≠ s.out.readLen.toNat := by
      have := hs.last hactive
      rw [hlast] at this
      exact beq_eq_false_iff_ne.mp this.symm
    have hinc : (s.out.readIndex + 1).toNat = s.out.readIndex.toNat + 1 := by bv_omega
    refine ⟨by rw [hout]; exact hs.valid, by rw [hbufs]; exact hs.nonempty, ?_, ?_, ?_, ?_, ?_⟩
    · rw [hout, hbufs]
      exact hs.pending
    · rw [hout, hbufs]
      exact hs.length
    · rw [hout]
      intro _
      show (s.out.readIndex + 1).toNat < s.out.readLen.toNat
      omega
    · rw [hout, hbufs]
      exact fun _ => rfl
    · rw [hout]
      intro _
      show (s.out.readIndex + 1 == s.out.readLen - 1) =
        ((s.out.readIndex + 1).toNat + 1 == s.out.readLen.toNat)
      rw [Bool.eq_iff_iff, beq_iff_eq, beq_iff_eq]
      bv_omega
  | stall hactive hready hbufs hout => exact hs.congr hbufs hout

/-- **The output stage hands over the front of the queue.** -/
theorem accepted_append_queued (hs : Queue s) : accepted s i ++ queued r = queued s := by
  cases h with
  | start k hidle hk hfirst hbufs hout =>
    have hnone : accepted s i = [] := by simp [accepted, hs.valid, hidle]
    rw [hnone, List.nil_append, queued, queued, hout, hbufs, hidle]
    cases k with
    | false => simp [Buffer.waiting, hk]
    | true => simp [Buffer.waiting, hk, hfirst rfl]
  | idle hidle hnone hbufs hout =>
    have hnil : accepted s i = [] := by simp [accepted, hs.valid, hidle]
    rw [hnil, List.nil_append, queued_congr hbufs hout]
  | finish hactive hready hlast hbufs hidle hvalid =>
    have hend : s.out.readIndex.toNat + 1 = (s.bufs s.out.readBuf).len.toNat := by
      have := hs.last hactive
      rw [hlast, hs.length hactive] at this
      exact beq_iff_eq.mp this.symm
    have htaken : accepted s i = [⟨s.out.tdata, s.out.tlast⟩] := by
      simp [accepted, hs.valid, hactive, hready]
    have hrest : queued r = (s.bufs (!s.out.readBuf)).waiting := by
      rw [queued, hidle, hbufs]
      cases s.out.readBuf <;> simp [Buffer.waiting]
    rw [hs.queued_of_active hactive, Buffer.drop_packet_of_le hend.ge, htaken, hrest]
    rfl
  | advance hactive hready hlast hbufs hout =>
    have hindex := hs.index hactive
    have hinc : (s.out.readIndex + 1).toNat = s.out.readIndex.toNat + 1 := by bv_omega
    have htaken : accepted s i = [⟨s.out.tdata, s.out.tlast⟩] := by
      simp [accepted, hs.valid, hactive, hready]
    have hrest : queued r = (s.bufs s.out.readBuf).packet.drop (s.out.readIndex.toNat + 1) ++
        (s.bufs (!s.out.readBuf)).waiting := by
      rw [queued, hout, hbufs, ← hinc]
      exact if_pos hactive
    rw [hs.queued_of_active hactive, htaken, hrest]
    rfl
  | stall hactive hready hbufs hout =>
    have hnil : accepted s i = [] := by simp [accepted, hready]
    rw [hnil, List.nil_append, queued_congr hbufs hout]

end OutCase

/-! ## The write buffer -/

theorem bufBusy_congr (hbufs : r.bufs = s.bufs) (hout : r.out = s.out) (k : Bool) :
    bufBusy r k = bufBusy s k := by
  rw [bufBusy, bufBusy, hbufs, hout]

/-- The buffer that is read is the other one. -/
theorem readBuf_of_not_busy (hw : bufBusy s w = false) (hactive : s.out.active = true) :
    s.out.readBuf = !w := by
  rw [bufBusy, Bool.or_eq_false_iff, hactive, Bool.true_and, beq_eq_false_iff_ne] at hw
  exact Bool.eq_not.mpr hw.2

/-- A change of the write buffer that does not concern the output stage. -/
theorem Queue.update (hs : Queue s) (hw : bufBusy s w = false) {x : Buffer}
    (hbufs : r.bufs = Function.update s.bufs w x) (hout : r.out = s.out)
    (hx : x.pending = true → 0 < x.len.toNat) : Queue r := by
  have hread (hactive : s.out.active = true) : r.bufs s.out.readBuf = s.bufs s.out.readBuf := by
    rw [hbufs, readBuf_of_not_busy hw hactive]
    exact Function.update_of_ne (by simp) _ _
  refine ⟨by rw [hout]; exact hs.valid, ?_, ?_, ?_, by rw [hout]; exact hs.index, ?_,
    by rw [hout]; exact hs.last⟩
  · intro k hk
    rw [hbufs] at hk ⊢
    by_cases hkw : k = w
    · subst hkw
      rw [Function.update_self] at hk ⊢
      exact hx hk
    · rw [Function.update_of_ne hkw] at hk ⊢
      exact hs.nonempty k hk
  all_goals
    rw [hout]
    intro hactive
    rw [hread hactive]
  · exact hs.pending hactive
  · exact hs.length hactive
  · exact hs.data hactive

/-- Bytes of a payload that is not complete are not in the queue. -/
theorem queued_update_mem (hw : bufBusy s w = false) {mem : Nat → UInt8}
    (hbufs : r.bufs = Function.update s.bufs w { s.bufs w with mem := mem })
    (hout : r.out = s.out) : queued r = queued s := by
  have hnot : (s.bufs w).pending = false := (Bool.or_eq_false_iff.mp hw).1
  have hwaiting (k : Bool) : (r.bufs k).waiting = (s.bufs k).waiting := by
    rw [hbufs]
    by_cases hkw : k = w
    · subst hkw
      simp [Buffer.waiting, hnot]
    · rw [Function.update_of_ne hkw]
  rw [queued, queued, hout, hwaiting, hwaiting, hwaiting]
  split_ifs with hactive
  · rw [hbufs, readBuf_of_not_busy hw hactive, Function.update_of_ne (by simp)]
  · rfl

/-- **A complete payload comes to the back of the queue.** -/
theorem queued_enqueue (hw : bufBusy s w = false)
    (hidle : s.out.active = false → (s.bufs (!w)).pending = false) {len : BitVec 16}
    {mem : Nat → UInt8} (hbufs : r.bufs = Function.update s.bufs w ⟨len, true, mem⟩)
    (hout : r.out = s.out) :
    queued r = queued s ++ axisPacket ((List.range len.toNat).map mem) := by
  have hnot : (s.bufs w).pending = false := (Bool.or_eq_false_iff.mp hw).1
  have hnew : (r.bufs w).waiting = axisPacket ((List.range len.toNat).map mem) := by
    rw [hbufs, Function.update_self]
    rfl
  have hold : (s.bufs w).waiting = [] := by simp [Buffer.waiting, hnot]
  have hother : r.bufs (!w) = s.bufs (!w) := by
    rw [hbufs]
    exact Function.update_of_ne (by simp) _ _
  rw [queued, queued, hout]
  split_ifs with hactive
  · rw [readBuf_of_not_busy hw hactive, hother, Bool.not_not, hnew, hold, List.append_nil]
  · have hnone : (s.bufs (!w)).waiting = [] := by
      simp [Buffer.waiting, hidle (by simpa using hactive)]
    cases w with
    | false =>
      change r.bufs true = s.bufs true at hother
      change (s.bufs true).waiting = [] at hnone
      rw [hother, hnew, hold, hnone]
      simp
    | true =>
      change r.bufs false = s.bufs false at hother
      change (s.bufs false).waiting = [] at hnone
      rw [hother, hnew, hold, hnone]
      rfl

end FpgaHashJoin.UdpIpv4Rx
