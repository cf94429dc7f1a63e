import FpgaHashJoin.Rtl.TxFraming

/-!
# The destination of a transmitted frame

`udp_ipv4_tx` takes the endpoint of a reply from its `remote_*` inputs, and these change
whenever the receive filter accepts a packet of another host. The framer latches them with the
first payload byte and takes the header fields from the latches, all but one: the first byte of
the frame is preloaded with the last payload byte, and it is taken from the input pin.

The history of a run (`Ev`) has the endpoint at each first payload byte, the MAC address at each
last one, and the bytes of the frames. It is the history of the framing seen from another side
(`firsts_trace`, `lasts_trace`, `outs_trace`), so `Framing.packets` says what each frame consists
of, and `destination_consistent_iff` reads off when the frames are consistent.
-/

namespace FpgaHashJoin.UdpIpv4Tx

open Clocked PacketStream

/-! ## The history of a run -/

inductive Ev where
  /-- The first payload byte of a packet is taken, with this endpoint on the pins. -/
  | first (e : Endpoint)
  /-- The last payload byte is taken, with this MAC address on the pins. -/
  | last (mac : BitVec 48)
  /-- A byte of a frame is handed over. -/
  | out (x : AxisByte)
  deriving DecidableEq

/-- What happens in a cycle. -/
def events (p : Params) (s : Regs) (i : Pins) : List Ev :=
  if !i.rstN then []
  else
    (if s.state = .idle && i.sPayloadTvalid then [.first i.endpoint] else []) ++
    (if payloadInputFire p s i && i.sPayloadTlast then [.last i.remoteMac] else []) ++
    if s.mFrameTvalid && i.mFrameTready then [.out ⟨s.mFrameTdata, s.mFrameTlast⟩] else []

def firsts (h : List Ev) : List Endpoint :=
  h.filterMap fun
    | .first e => some e
    | _ => none

def lasts (h : List Ev) : List (BitVec 48) :=
  h.filterMap fun
    | .last mac => some mac
    | _ => none

def outs (h : List Ev) : List AxisByte :=
  h.filterMap fun
    | .out x => some x
    | _ => none

/-- The emitted frames; the last one may be incomplete. -/
def frames (h : List Ev) : List (List AxisByte) := split AxisByte.last (outs h)

/-! ## Consistent frames -/

/-- The bytes of a frame that carry the destination. -/
def destByte (e : Endpoint) (j : Nat) : Option UInt8 :=
  if j < 6 then some (macByte e.mac (.ofNat 3 j))
  else if 30 ≤ j ∧ j < 34 then some (ipByte e.ip (.ofNat 2 (j - 30)))
  else if j = 36 then some (byteOf e.port 1)
  else if j = 37 then some (byteOf e.port 0)
  else none

/-- The frame has the destination `e`, as far as it has been emitted. A complete frame has all
bytes of the destination. -/
def Destined (e : Endpoint) (f : List AxisByte) : Prop :=
  (∀ j x b, f[j]? = some x → destByte e j = some b → x.data = b) ∧
    (IsPacket AxisByte.last f → 38 ≤ f.length)

/-- Every frame has the destination that was on the pins with the first payload byte of its
packet. -/
def Consistent (h : List Ev) : Prop :=
  ∀ (k : Nat) f, (frames h)[k]? = some f → ∃ e, (firsts h)[k]? = some e ∧ Destined e f

/-! ## Frames -/

section Frames

variable {p : Params} {e : Endpoint} {mac : BitVec 48} {bs : List UInt8}

/-- The header has the destination. -/
theorem getElem?_frameData_of_destByte {j : Nat} {b : UInt8} (h : destByte e j = some b) :
    (frameData p e bs)[j]? = some b := by
  have hj : j < 38 := by
    rw [destByte] at h
    split_ifs at h <;> omega
  have hlen := length_frameHeader p e bs.length
  rw [frameData_eq, List.append_assoc, List.getElem?_append_left (by omega), ← h, frameHeader,
    ipv4Header_eq]
  rw [destByte] at h
  split_ifs at h with hmac hip hhigh hlow
  · interval_cases j <;> rfl
  · obtain ⟨hlo, hhi⟩ := hip
    interval_cases j <;> rfl
  · rw [hhigh]
    rfl
  · rw [hlow]
    rfl

theorem getElem?_of_isPrefix_flagged {f : List AxisByte} (hf : f <+: flagged bs) {j : Nat}
    {x : AxisByte} (hx : f[j]? = some x) : bs[j]? = some x.data := by
  obtain ⟨rest, hrest⟩ := hf
  have hlt := (List.getElem?_eq_some_iff.mp hx).1
  have hall : (flagged bs)[j]? = some x := by rw [← hrest, List.getElem?_append_left hlt, hx]
  rw [getElem?_flagged] at hall
  obtain ⟨b, hb, rfl⟩ := Option.map_eq_some_iff.mp hall
  exact hb

/-- **A frame has the destination if and only if its first byte does.** That byte comes from
another address. -/
theorem destined_iff {f : List AxisByte} (hne : f ≠ [])
    (hf : f <+: flagged (sentFrame p e mac bs)) :
    Destined e f ↔ macByte mac 0 = macByte e.mac 0 := by
  obtain ⟨x, rest, rfl⟩ := List.exists_cons_of_ne_nil hne
  have hfirst : macByte mac 0 = x.data :=
    Option.some.inj (getElem?_of_isPrefix_flagged hf (j := 0) rfl)
  constructor
  · rintro ⟨hdest, -⟩
    rw [hfirst]
    exact hdest 0 x _ rfl rfl
  · intro hmac
    refine ⟨fun j y b hy hb => ?_, fun hpacket => ?_⟩
    · have hsent := getElem?_of_isPrefix_flagged hf hy
      by_cases hj : j = 0
      · subst hj
        obtain rfl := Option.some.inj hy
        rw [← hfirst, hmac]
        exact Option.some.inj hb
      · have hdata : (frameData p e bs)[j]? = some b := getElem?_frameData_of_destByte hb
        have hlt : j < (sentData p e mac bs).length := by
          rw [length_sentData, ← length_frameData]
          exact (List.getElem?_eq_some_iff.mp hdata).1
        rw [sentFrame, List.getElem?_append_left hlt, getElem?_sentData (Nat.pos_of_ne_zero hj),
          hdata] at hsent
        exact (Option.some.inj hsent).symm
    · rw [eq_of_isPacket_of_isPrefix hpacket (isPacket_flagged sentFrame_ne_nil) hf, length_flagged,
        length_sentFrame]
      omega

end Frames

/-! ## The two histories -/

section Histories

variable {p : Params} {s : Regs} {i : Pins}

theorem firsts_append (h h' : List Ev) : firsts (h ++ h') = firsts h ++ firsts h' :=
  List.filterMap_append

theorem lasts_append (h h' : List Ev) : lasts (h ++ h') = lasts h ++ lasts h' :=
  List.filterMap_append

theorem outs_append (h h' : List Ev) : outs (h ++ h') = outs h ++ outs h' :=
  List.filterMap_append

/-- A first byte is taken in the idle state only. -/
theorem firsts_events (hrst : i.rstN = true) : firsts (events p s i) =
    if s.state = .idle && i.sPayloadTvalid then [i.endpoint] else [] := by
  unfold events
  rw [if_neg (by simp [hrst])]
  split_ifs <;> rfl

theorem lasts_events (hrst : i.rstN = true) : lasts (events p s i) =
    if payloadInputFire p s i && i.sPayloadTlast then [i.remoteMac] else [] := by
  unfold events
  rw [if_neg (by simp [hrst])]
  split_ifs <;> rfl

theorem taken_txEvents (hrst : i.rstN = true) : taken (txEvents p s i) =
    if payloadInputFire p s i then [(⟨i.sPayloadTdata, i.sPayloadTlast⟩, i.endpoint)] else [] := by
  unfold txEvents
  rw [if_neg (by simp [hrst])]
  split_ifs <;> rfl

theorem outs_trace (s : Regs) (cycles : List Pins) :
    outs (trace (step p) (events p) s cycles) = emitted (trace (step p) (txEvents p) s cycles) := by
  have hone : ∀ s i, outs (events p s i) = emitted (txEvents p s i) := by
    intro s i
    unfold events txEvents
    split_ifs <;> rfl
  induction cycles generalizing s with
  | nil => rfl
  | cons i is ih => rw [trace_cons, trace_cons, outs_append, emitted_append, hone, ih]

theorem lasts_trace (s : Regs) (cycles : List Pins) :
    lasts (trace (step p) (events p) s cycles) =
      ((taken (trace (step p) (txEvents p) s cycles)).filter endsPacket).map fun x => x.2.mac := by
  have hone : ∀ s i, lasts (events p s i) =
      ((taken (txEvents p s i)).filter endsPacket).map fun x => x.2.mac := by
    intro s i
    cases hrst : i.rstN with
    | false => simp [events, txEvents, lasts, taken, hrst]
    | true =>
      rw [lasts_events hrst, taken_txEvents hrst]
      cases payloadInputFire p s i <;> cases i.sPayloadTlast <;> rfl
  induction cycles generalizing s with
  | nil => rfl
  | cons i is ih =>
    rw [trace_cons, trace_cons, lasts_append, taken_append, List.filter_append, List.map_append,
      hone, ih]

/-- A first byte begins a packet, and every other byte belongs to the open one. -/
theorem Framing.firsts_step {h : List Ev} {h' : List TxEv} (hf : Framing p s h')
    (hrst : i.rstN = true)
    (hsame : (firsts h).map some =
      (split endsPacket (taken h')).map fun q => q.head?.map Prod.snd) :
    (firsts (h ++ events p s i)).map some =
      (split endsPacket (taken (h' ++ txEvents p s i))).map fun q => q.head?.map Prod.snd := by
  obtain ⟨ds, done, cur, -, hframed, hopen⟩ := hf
  obtain ⟨hds, -⟩ := isPacket_of_framed hframed
  rw [firsts_append, taken_append, firsts_events hrst, taken_txEvents hrst, List.map_append, hsame]
  cases hs : s.state with
  | idle =>
    rw [FrameOpen, hs] at hopen
    rw [fire_idle hs, hopen.1]
    cases i.sPayloadTvalid with
    | false => simp
    | true =>
      simp only [decide_true, Bool.and_true, if_true]
      rw [split_first hds, split_flatten hds, List.map_append]
      rfl
  | recv =>
    rw [FrameOpen, hs] at hopen
    cases payloadInputFire p s i with
    | false => simp
    | true =>
      obtain ⟨q, bs, hT, -, -, hr⟩ := hopen
      obtain ⟨x, q, rfl⟩ : ∃ x q', q = x :: q' := by
        cases q with
        | nil => cases hr.address
        | cons x q => exact ⟨x, q, rfl⟩
      have hnone : (decide (St.recv = .idle) && i.sPayloadTvalid) = false := rfl
      rw [hT, split_flatten_append hds, split_quiet (by simp) hr.quiet, List.append_assoc, hnone]
      simp only [if_true]
      rw [split_next hds hr.quiet, List.map_append, List.map_append]
      exact List.append_nil _
  | send =>
    rw [fire_send hs]
    simp

theorem firsts_trace (hmax : p.maxPayloadBytes + 46 < 2 ^ 16) (s₀ : Regs) {i₀ : Pins}
    (hreset : i₀.rstN = false) {cycles : List Pins} (hrst : ∀ i ∈ cycles, i.rstN = true) :
    (firsts (trace (step p) (events p) (step p s₀ i₀) cycles)).map some =
      (split endsPacket (taken (trace (step p) (txEvents p) (step p s₀ i₀) cycles))).map
        fun q => q.head?.map Prod.snd := by
  refine history_induction (fun is =>
    (firsts (trace (step p) (events p) (step p s₀ i₀) is)).map some =
      (split endsPacket (taken (trace (step p) (txEvents p) (step p s₀ i₀) is))).map
        fun q => q.head?.map Prod.snd) rfl ?_ hrst
  intro is i his hi hsame
  rw [trace_snoc, trace_snoc]
  exact (framing_run hmax s₀ hreset his).firsts_step hi hsame

end Histories

/-- **One destination per frame, exactly when** for each frame the first byte of `remote_mac` is
the same with the first and with the last payload byte of its packet. Everything else may change
on the pins at any time. -/
theorem destination_consistent_iff {p : Params} (hmax : p.maxPayloadBytes + 46 < 2 ^ 16)
    {s₀ : Regs} {i₀ : Pins} (hreset : i₀.rstN = false) {cycles : List Pins}
    (hrst : ∀ i ∈ cycles, i.rstN = true) :
    let h := trace (step p) (events p) (step p s₀ i₀) cycles
    Consistent h ↔ ∀ (k : Nat) e mac, k < (frames h).length → (firsts h)[k]? = some e →
      (lasts h)[k]? = some mac → macByte mac 0 = macByte e.mac 0 := by
  intro h
  have hf := framing_run hmax s₀ hreset hrst
  have hframe : ∀ {k : Nat} {f}, (frames h)[k]? = some f → ∃ e mac, (firsts h)[k]? = some e ∧
      (lasts h)[k]? = some mac ∧ (Destined e f ↔ macByte mac 0 = macByte e.mac 0) := by
    intro k f hk
    rw [frames, outs_trace] at hk
    obtain ⟨q, e, mac, bs, hq, hpacket, -, ⟨hhead, hlast⟩, -, hle⟩ := hf.packets hk
    have hne : f ≠ [] := ne_nil_of_mem_split (List.mem_of_getElem? hk)
    refine ⟨e, mac, ?_, ?_, destined_iff hne hle⟩
    · have hfirsts := congrArg (·[k]?) (firsts_trace hmax s₀ hreset hrst)
      simp only [List.getElem?_map, hq, Option.map_some, hhead] at hfirsts
      obtain ⟨e', he', heq⟩ := Option.map_eq_some_iff.mp hfirsts
      rw [← Option.some.inj heq]
      exact he'
    · rw [lasts_trace, List.getElem?_map, getElem?_filter_of_split hq hpacket]
      exact hlast
  constructor
  · intro hcons k e mac hk he hmac
    obtain ⟨e', he', hdest⟩ := hcons k _ (List.getElem?_eq_getElem hk)
    obtain ⟨e'', mac', he'', hmac', hiff⟩ := hframe (List.getElem?_eq_getElem hk)
    obtain rfl : e = e' := Option.some.inj (he.symm.trans he')
    obtain rfl : e = e'' := Option.some.inj (he.symm.trans he'')
    obtain rfl : mac = mac' := Option.some.inj (hmac.symm.trans hmac')
    exact hiff.mp hdest
  · intro hsame k f hk
    obtain ⟨e, mac, he, hmac, hiff⟩ := hframe hk
    have hlt : k < (frames h).length := (List.getElem?_eq_some_iff.mp hk).1
    exact ⟨e, he, hiff.mpr (hsame k e mac hlt he hmac)⟩

/-- A packet of two bytes, and then the time for its frame. The address on the pins is that of one
host for the first byte and that of another one for the second. -/
def twoHosts (mac mac' : BitVec 48) : List Pins :=
  fromHost mac ⟨0x11, false⟩ :: fromHost mac' ⟨0x22, true⟩ :: List.replicate 64 pause

/-- The history after a reset. -/
def historyOf (cycles : List Pins) : List Ev :=
  trace (step {}) (events {}) started cycles

theorem destination_consistent_sameHost :
    Consistent (historyOf (twoHosts 0x9c69d31f215e 0x9c69d31f215e)) := by
  refine (destination_consistent_iff (by decide) rfl (by decide)).mpr ?_
  intro k e mac hk he hmac
  have hone : (frames (historyOf (twoHosts 0x9c69d31f215e 0x9c69d31f215e))).length = 1 := by
    decide +kernel
  obtain rfl : k = 0 := Nat.lt_one_iff.mp (lt_of_lt_of_eq hk hone)
  have he' : e = ⟨0x9c69d31f215e, 0xC0A80001, 50000⟩ :=
    Option.some.inj (he.symm.trans (by decide +kernel))
  have hmac' : mac = 0x9c69d31f215e := Option.some.inj (hmac.symm.trans (by decide +kernel))
  rw [he', hmac']

/-- The frame goes to an address that neither of the two hosts has. -/
theorem destination_mixed :
    ¬ Consistent (historyOf (twoHosts 0x9c69d31f215e 0x020000000005)) := by
  intro hcons
  let h := historyOf (twoHosts 0x9c69d31f215e 0x020000000005)
  obtain ⟨f, hf⟩ : ∃ f, (frames h)[0]? = some f := Option.isSome_iff_exists.mp (by decide +kernel)
  obtain ⟨e, he, hdest, -⟩ := hcons 0 f hf
  have he' : e = ⟨0x9c69d31f215e, 0xC0A80001, 50000⟩ :=
    Option.some.inj (he.symm.trans (by decide +kernel))
  have hbyte : ((frames h)[0]?.bind fun f => f[0]?) = some ⟨0x02, false⟩ := by decide +kernel
  rw [hf] at hbyte
  have hfirst := hdest 0 _ 0x9c hbyte (by rw [he']; decide +kernel)
  exact absurd hfirst (by decide)

end FpgaHashJoin.UdpIpv4Tx
