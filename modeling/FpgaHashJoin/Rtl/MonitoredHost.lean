import FpgaHashJoin.Rtl.TimingMonitor
import FpgaHashJoin.Kernel.Framing

/-!
# The timing monitor and the frames of the host

The receive side of `axis_protocol_timing_monitor` takes the payload of a CONFIGURE for twelve
bytes long; `TupleSerializer` writes thirteen, the last one being the session identifier. DATA
and RESET frames are parsed as they are sent (`rx_frame`), but a CONFIGURE leaves its last byte
to be taken for the first byte of the next header (`rx_configure`). A second defect is in the
time stamps: zero stands for "not taken", so a stamp that is taken while the cycle counter is
zero is taken again with the next frame of the kind.

`rxFollows_iff` says exactly when the monitor follows the host: there is no CONFIGURE, the
counters do not wrap around, and no first stamp is lost.
-/

namespace FpgaHashJoin.AxisProtocolTimingMonitor

open Clocked LittleEndian

/-! ## What the monitor should show -/

/-- The frames with the cycle counter at the first byte of each. -/
def stamped : List HostFrame → List (UInt64 × UInt8) → List (HostFrame × UInt64)
  | [], _ => []
  | f :: fs, xs => (f, (xs.head?.map Prod.fst).getD 0) :: stamped fs (xs.drop f.bytes.length)

/-- The stamps of the frames of a type. -/
def stamps (ty : MsgType) (seen : List (HostFrame × UInt64)) : List UInt64 :=
  seen.filterMap fun x => if x.1.type = ty then some x.2 else none

def keyType? : HostFrame → Option UInt8
  | .configure p => some p.keyType
  | _ => none

/-- The key type of the last CONFIGURE; the monitor starts with 32-bit keys. -/
def lastKeyType (fs : List HostFrame) : UInt8 := (fs.filterMap keyType?).getLast?.getD keyInt32

/-- The registers agree with the frames that have been seen. -/
structure RxInStep (seen : List (HostFrame × UInt64)) (r : RxRegs) : Prop where
  hdr : r.hdrIdx = 0
  inner : r.innerFrames.toNat = (stamps .innerData seen).length
  outer : r.outerFrames.toNat = (stamps .outerData seen).length
  keyType : r.keyType = lastKeyType (seen.map Prod.fst)
  config : ∀ c ∈ (stamps .configure seen).head?, r.tsConfigFirst = c
  build : ∀ c ∈ (stamps .innerData seen).head?, r.tsBuildFirst = c
  probe : ∀ c ∈ (stamps .outerData seen).head?, r.tsProbeFirst = c

/-- After each complete frame the registers agree with the frames so far. -/
def RxFollows (s : Regs) (cycles : List Pins) (fs : List HostFrame) : Prop :=
  ∀ pre done, pre <+: cycles → done <+: fs →
    (trace step rxSeen s pre).map Prod.snd = done.flatMap HostFrame.bytes →
    RxInStep (stamped done (trace step rxSeen s pre)) (run step s pre).rx

/-- What the host sends: DATA frames have the width of the last CONFIGURE, and at most a full
batch of tuples. Before the first CONFIGURE the width is the default of the host and the
monitor. -/
def ClientFrames : KeyType → List HostFrame → Prop
  | _, [] => True
  | _, .configure p :: fs => ClientFrames (KeyType.ofCode p.keyType) fs
  | w, .data _ w' ts :: fs => (w' = w ∧ ts.length ≤ rxBufTuples) ∧ ClientFrames w fs
  | w, .reset :: fs => ClientFrames w fs

/-- The first stamp is not zero, or there is nothing after it that would replace it. -/
def Kept (l : List UInt64) : Prop := ∀ c ∈ l.head?, c = 0 → ∀ d ∈ l, d = 0

-- decided over the list; the quantifiers as such range over all stamps
instance (l : List UInt64) : Decidable (Kept l) :=
  decidable_of_iff (l.head? = some 0 → l.all (· == 0) = true) (by
    unfold Kept
    constructor
    · rintro h c hc rfl
      simpa using h hc
    · intro h hc
      simpa using h 0 hc rfl)

/-! ## The receive side over a frame -/

/-- Inside of a payload. -/
structure RxInside (msg : UInt8) (left : Nat) (r : RxRegs) : Prop where
  hdr : r.hdrIdx = 3
  msg_eq : r.msg = msg
  left_eq : r.payloadRemaining.toNat = left

/-- What is visible of the registers between two frames. -/
structure RxKeeps (r₀ r : RxRegs) : Prop where
  inner : r.innerFrames = r₀.innerFrames
  outer : r.outerFrames = r₀.outerFrames
  keyType : r.keyType = r₀.keyType
  build : r.tsBuildFirst = r₀.tsBuildFirst
  probe : r.tsProbeFirst = r₀.tsProbeFirst

theorem RxKeeps.trans {r₀ r₁ r₂ : RxRegs} (h : RxKeeps r₀ r₁) (h' : RxKeeps r₁ r₂) :
    RxKeeps r₀ r₂ :=
  ⟨h'.inner.trans h.inner, h'.outer.trans h.outer, h'.keyType.trans h.keyType,
    h'.build.trans h.build, h'.probe.trans h.probe⟩

/-- A frame has been counted. -/
structure RxCounted (msg : UInt8) (r₀ r : RxRegs) : Prop where
  hdr : r.hdrIdx = 0
  inner : r.innerFrames = r₀.innerFrames + if msg = msgInnerData then 1 else 0
  outer : r.outerFrames = r₀.outerFrames + if msg = msgOuterData then 1 else 0
  keyType : r.keyType = r₀.keyType
  build : r.tsBuildFirst = r₀.tsBuildFirst
  probe : r.tsProbeFirst = r₀.tsProbeFirst

section RxFrames

variable {msg : UInt8} {left : Nat} {r₀ r : RxRegs}

theorem RxCounted.of_keeps {r' : RxRegs} (h : RxKeeps r₀ r) (h' : RxCounted msg r r') :
    RxCounted msg r₀ r' :=
  ⟨h'.hdr, h'.inner.trans (by rw [h.inner]), h'.outer.trans (by rw [h.outer]),
    h'.keyType.trans h.keyType, h'.build.trans h.build, h'.probe.trans h.probe⟩

theorem rxFrameDone_counted (now : UInt64) (r : RxRegs) (hmsg : r.msg = msg) (n : UInt32) :
    RxCounted msg r { rxFrameDone now r with payloadRemaining := n, hdrIdx := 0 } := by
  subst hmsg
  generalize hdone : rxFrameDone now r = r'
  unfold rxFrameDone at hdone
  split_ifs at hdone with hinner houter
  · subst hdone
    have houter : r.msg ≠ msgOuterData := by rw [hinner]; decide
    exact ⟨rfl, by rw [if_pos hinner], by simp [houter], rfl, rfl, rfl⟩
  · subst hdone
    exact ⟨rfl, by simp [hinner], by rw [if_pos houter], rfl, rfl, rfl⟩
  · subst hdone
    exact ⟨rfl, by simp [hinner], by simp [houter], rfl, rfl, rfl⟩

/-- A payload byte that is not the last one. -/
theorem rx_more (h : RxInside msg (left + 2) r) (x : UInt64 × UInt8) :
    RxInside msg (left + 1) (onRxByte r x) ∧
      (msg ≠ msgConfigure → RxKeeps r (onRxByte r x)) := by
  have hmore : ¬ r.payloadRemaining ≤ 1 := by
    rw [UInt32.le_iff_toNat_le, h.left_eq]
    simp
  have hnext : onRxByte r x = { r with
      bytesRx := r.bytesRx + 1
      keyType := if r.msg = msgConfigure ∧ r.payloadIndex = 1 then x.2 else r.keyType
      payloadIndex := r.payloadIndex + 1
      payloadRemaining := r.payloadRemaining - 1 } := by
    simp [onRxByte, h.hdr, hmore]
  rw [hnext]
  constructor
  · refine ⟨h.hdr, h.msg_eq, ?_⟩
    have hle : (1 : UInt32) ≤ r.payloadRemaining := by
      rw [UInt32.le_iff_toNat_le, h.left_eq]
      simp
    rw [UInt32.toNat_sub_of_le _ _ hle, h.left_eq]
    rfl
  · intro hmsg
    refine ⟨rfl, rfl, if_neg ?_, rfl, rfl⟩
    rw [h.msg_eq]
    exact fun hconf => hmsg hconf.1

/-- The payload up to its last byte. -/
theorem rx_middle {xs : List (UInt64 × UInt8)} (h : RxInside msg (xs.length + 1) r) :
    RxInside msg 1 (run onRxByte r xs) ∧
      (msg ≠ msgConfigure → RxKeeps r (run onRxByte r xs)) := by
  induction xs generalizing r with
  | nil => exact ⟨h, fun _ => ⟨rfl, rfl, rfl, rfl, rfl⟩⟩
  | cons x xs ih =>
    obtain ⟨hfirst, hkeeps⟩ := rx_more h x
    obtain ⟨hrest, hkeeps'⟩ := ih hfirst
    exact ⟨hrest, fun hmsg => (hkeeps hmsg).trans (hkeeps' hmsg)⟩

/-- The last byte of a payload. -/
theorem rx_last (h : RxInside msg 1 r) (x : UInt64 × UInt8) :
    (onRxByte r x).hdrIdx = 0 ∧ (msg ≠ msgConfigure → RxCounted msg r (onRxByte r x)) := by
  have hlast : r.payloadRemaining ≤ 1 := by
    rw [UInt32.le_iff_toNat_le, h.left_eq]
    rfl
  let r' : RxRegs := { r with
    bytesRx := r.bytesRx + 1
    keyType := if r.msg = msgConfigure ∧ r.payloadIndex = 1 then x.2 else r.keyType
    payloadIndex := r.payloadIndex + 1 }
  have hnext : onRxByte r x = { rxFrameDone x.1 r' with payloadRemaining := 0, hdrIdx := 0 } := by
    simp [onRxByte, h.hdr, hlast, r']
  rw [hnext]
  refine ⟨rfl, fun hmsg => ?_⟩
  have hkeeps : RxKeeps r r' := by
    refine ⟨rfl, rfl, if_neg ?_, rfl, rfl⟩
    rw [h.msg_eq]
    exact fun hconf => hmsg hconf.1
  exact .of_keeps hkeeps (rxFrameDone_counted x.1 r' h.msg_eq 0)

/-- A whole payload. -/
theorem rx_payload {xs : List (UInt64 × UInt8)} (h : RxInside msg xs.length r)
    (hne : xs ≠ []) : (run onRxByte r xs).hdrIdx = 0 ∧
      (msg ≠ msgConfigure → RxCounted msg r (run onRxByte r xs)) := by
  obtain ⟨ys, y, rfl⟩ : ∃ ys y, xs = ys ++ [y] :=
    ⟨xs.dropLast, xs.getLast hne, (List.dropLast_append_getLast hne).symm⟩
  rw [List.length_append, List.length_singleton] at h
  obtain ⟨hinside, hkeeps⟩ := rx_middle h
  obtain ⟨hhdr, hcounted⟩ := rx_last hinside y
  rw [run_snoc]
  exact ⟨hhdr, fun hmsg => .of_keeps (hkeeps hmsg) (hcounted hmsg)⟩

/-- The registers with the stamp of a frame that begins. -/
def begun (msg : UInt8) (now : UInt64) (r : RxRegs) : RxRegs :=
  { r with
    tsBuildFirst := if msg = msgInnerData then first r.tsBuildFirst now else r.tsBuildFirst
    tsProbeFirst := if msg = msgOuterData then first r.tsProbeFirst now else r.tsProbeFirst }

/-- The header of a frame. -/
theorem rx_header (h0 : r.hdrIdx = 0) {count : UInt16} {now : UInt64} {xs : List (UInt64 × UInt8)}
    (hxs : ((now, msg) :: xs).map Prod.snd = msg :: bytes16 count) :
    (rxPayloadLen msg count r.keyType = 0 →
      RxCounted msg (begun msg now r) (run onRxByte r ((now, msg) :: xs))) ∧
    (rxPayloadLen msg count r.keyType ≠ 0 →
      RxInside msg (rxPayloadLen msg count r.keyType).toNat (run onRxByte r ((now, msg) :: xs)) ∧
      RxKeeps (begun msg now r) (run onRxByte r ((now, msg) :: xs))) := by
  obtain ⟨⟨n₁, b₁⟩, ⟨n₂, b₂⟩, rfl⟩ : ∃ y z, xs = [y, z] := by
    refine List.length_eq_two.mp ?_
    have hlen := congrArg List.length hxs
    rw [List.length_map, List.length_cons, List.length_cons, length_bytes16] at hlen
    omega
  simp only [List.map_cons, List.map_nil, bytes16, List.cons.injEq, true_and, and_true] at hxs
  obtain ⟨rfl, rfl⟩ := hxs
  -- the registers after two bytes, and then the last byte of the header
  let r₂ : RxRegs := { begun msg now r with
    bytesRx := r.bytesRx + 1 + 1 + 1
    msg := msg
    hdrIdx := 2
    tsConfigFirst := if msg = msgConfigure then first r.tsConfigFirst now else r.tsConfigFirst
    count := count
    payloadRemaining := rxPayloadLen msg count r.keyType
    payloadIndex := 0 }
  have hcount : ∀ c : UInt16, word16 (word16 count.toUInt8 (c >>> 8).toUInt8).toUInt8
      (count >>> 8).toUInt8 = count := by
    intro c
    rw [toUInt8_word16, word16_bytes16]
  have hrun : run onRxByte r [(now, msg), (n₁, count.toUInt8), (n₂, (count >>> 8).toUInt8)] =
      if rxPayloadLen msg count r.keyType = 0 then { rxFrameDone n₂ r₂ with hdrIdx := 0 }
      else { r₂ with hdrIdx := 3 } := by
    simp [onRxByte, h0, hcount, r₂, begun]
  rw [hrun]
  constructor
  · intro hzero
    rw [if_pos hzero]
    have hcounted : RxCounted msg r₂ { rxFrameDone n₂ r₂ with hdrIdx := 0 } :=
      rxFrameDone_counted n₂ r₂ rfl (rxFrameDone n₂ r₂).payloadRemaining
    exact RxCounted.of_keeps (r := r₂) ⟨rfl, rfl, rfl, rfl, rfl⟩ hcounted
  · intro hpos
    rw [if_neg hpos]
    exact ⟨⟨rfl, rfl, rfl⟩, ⟨rfl, rfl, rfl, rfl, rfl⟩⟩

/-- A frame splits into its first byte with the stamp, the rest of the header, and the
payload. -/
theorem exists_split {f : HostFrame} {xs : List (UInt64 × UInt8)}
    (hxs : xs.map Prod.snd = f.bytes) : ∃ now hs ps, xs = ((now, f.type.code) :: hs) ++ ps ∧
      ((now, f.type.code) :: hs).map Prod.snd = f.type.code :: bytes16 (UInt16.ofNat f.count) ∧
      ps.map Prod.snd = f.payload := by
  rw [HostFrame.bytes_eq] at hxs
  obtain ⟨hs, ps, rfl, hhs, hps⟩ := List.map_eq_append_iff.mp hxs
  cases hs with
  | nil => cases hhs
  | cons x hs =>
    obtain ⟨now, b⟩ := x
    obtain rfl : b = f.type.code := (List.cons.inj hhs).1
    exact ⟨now, hs, ps, rfl, hhs, hps⟩

/-- **A DATA or RESET frame is parsed as it was sent**, DATA frames in the width that the
monitor has stored. -/
theorem rx_frame {f : HostFrame} (hconf : f.type ≠ .configure)
    (hlen : (rxPayloadLen f.type.code (UInt16.ofNat f.count) r.keyType).toNat = f.payload.length)
    (h0 : r.hdrIdx = 0) {xs : List (UInt64 × UInt8)} (hxs : xs.map Prod.snd = f.bytes) :
    ∃ now, xs.head?.map Prod.fst = some now ∧
      RxCounted f.type.code (begun f.type.code now r) (run onRxByte r xs) := by
  obtain ⟨now, hs, ps, rfl, hhs, hps⟩ := exists_split hxs
  have hmsg : f.type.code ≠ msgConfigure := fun h => hconf (MsgType.code_inj.mp h)
  refine ⟨now, rfl, ?_⟩
  obtain ⟨hshort, hlong⟩ := rx_header h0 hhs
  rw [run_append]
  by_cases hzero : rxPayloadLen f.type.code (UInt16.ofNat f.count) r.keyType = 0
  · rw [hzero] at hlen
    obtain rfl : ps = [] := by
      rw [← List.map_eq_nil_iff, hps, ← List.length_eq_zero_iff]
      exact hlen.symm
    exact hshort hzero
  · obtain ⟨hinside, hkeeps⟩ := hlong hzero
    rw [hlen, ← hps, List.length_map] at hinside
    have hne : ps ≠ [] := by
      rintro rfl
      rw [← hps] at hlen
      exact hzero (UInt32.toNat_inj.mp hlen)
    exact .of_keeps hkeeps ((rx_payload hinside hne).2 hmsg)

/-- **After a CONFIGURE the parser is in the middle of a header.** -/
theorem rx_configure {p : ConfigurePayload} (h0 : r.hdrIdx = 0) {xs : List (UInt64 × UInt8)}
    (hxs : xs.map Prod.snd = (HostFrame.configure p).bytes) : (run onRxByte r xs).hdrIdx = 1 := by
  obtain ⟨now, hs, ps, rfl, hhs, hps⟩ := exists_split hxs
  have hplen : ps.length = 12 + 1 := by
    rw [← List.length_map (f := Prod.snd), hps]
    rfl
  obtain ⟨front, x, rfl⟩ : ∃ front x, ps = front ++ [x] := by
    have hne : ps ≠ [] := List.ne_nil_of_length_pos (by omega)
    exact ⟨ps.dropLast, ps.getLast hne, (List.dropLast_append_getLast hne).symm⟩
  rw [List.length_append, List.length_singleton, Nat.add_right_cancel_iff] at hplen
  have hlen : rxPayloadLen (HostFrame.configure p).type.code
      (UInt16.ofNat (HostFrame.configure p).count) r.keyType = 12 := rfl
  have hinside := ((rx_header h0 hhs).2 (by rw [hlen]; decide)).1
  rw [hlen, show UInt32.toNat 12 = 12 from rfl, ← hplen] at hinside
  have htwelve := (rx_payload hinside (List.ne_nil_of_length_pos (by omega))).1
  rw [← List.append_assoc, run_snoc, run_append]
  generalize run onRxByte (run onRxByte r _) front = r' at htwelve ⊢
  simp [onRxByte, htwelve]

/-- The length that the monitor computes for a DATA frame with 32-bit keys, or for a RESET. -/
theorem toNat_rxPayloadLen {f : HostFrame} (hf : ClientFrames .int32 [f])
    (hconf : f.type ≠ .configure) :
    (rxPayloadLen f.type.code (UInt16.ofNat f.count) keyInt32).toNat = f.payload.length := by
  cases f with
  | configure p => exact absurd rfl hconf
  | reset => rfl
  | data msg w ts =>
    obtain ⟨⟨rfl, hts⟩, -⟩ := hf
    have hcount := toNat_frameCount hts
    rw [rxBufTuples_eq] at hts
    have hlen : rxPayloadLen msg.type.code (UInt16.ofNat ts.length) keyInt32 =
        (UInt16.ofNat ts.length).toUInt32 * 10 := by
      cases msg <;> rfl
    have hpayload : (HostFrame.data msg .int32 ts).payload.length = ts.length * 10 := by
      simp [HostFrame.payload, List.length_flatMap, length_putTuple, KeyType.tupleBytes]
    rw [hpayload]
    refine (congrArg UInt32.toNat hlen).trans ?_
    rw [UInt32.toNat_mul, UInt16.toNat_toUInt32, hcount]
    exact Nat.mod_eq_of_lt (by simp; omega)

/-! ## Runs without a CONFIGURE -/

@[simp] theorem stamps_cons (ty : MsgType) (x : HostFrame × UInt64)
    (seen : List (HostFrame × UInt64)) :
    stamps ty (x :: seen) = (if x.1.type = ty then [x.2] else []) ++ stamps ty seen := by
  by_cases h : x.1.type = ty <;> simp [stamps, h]

theorem ClientFrames.cons {f : HostFrame} {fs : List HostFrame} (h : ClientFrames .int32 (f :: fs))
    (hconf : f.type ≠ .configure) : ClientFrames .int32 [f] ∧ ClientFrames .int32 fs := by
  cases f with
  | configure p => exact absurd rfl hconf
  | data msg w ts => exact ⟨⟨h.1, trivial⟩, h.2⟩
  | reset => exact ⟨trivial, h⟩

/-- What the frames make of the registers. -/
structure RxSum (seen : List (HostFrame × UInt64)) (r₀ r : RxRegs) : Prop where
  hdr : r.hdrIdx = 0
  inner : r.innerFrames = r₀.innerFrames + UInt32.ofNat (stamps .innerData seen).length
  outer : r.outerFrames = r₀.outerFrames + UInt32.ofNat (stamps .outerData seen).length
  keyType : r.keyType = keyInt32
  build : r.tsBuildFirst = (stamps .innerData seen).foldl first r₀.tsBuildFirst
  probe : r.tsProbeFirst = (stamps .outerData seen).foldl first r₀.tsProbeFirst

theorem ofNat_length_append (c : UInt32) (as bs : List UInt64) :
    c + UInt32.ofNat as.length + UInt32.ofNat bs.length = c + UInt32.ofNat (as ++ bs).length := by
  rw [List.length_append, UInt32.ofNat_add, UInt32.add_assoc]

/-- **DATA and RESET frames, one after the other.** -/
theorem rx_frames {fs : List HostFrame} (hfs : ClientFrames .int32 fs)
    (hconf : ∀ f ∈ fs, f.type ≠ .configure) (h0 : r.hdrIdx = 0) (hkey : r.keyType = keyInt32)
    {xs : List (UInt64 × UInt8)} (hxs : xs.map Prod.snd = fs.flatMap HostFrame.bytes) :
    RxSum (stamped fs xs) r (run onRxByte r xs) := by
  induction fs generalizing r xs with
  | nil =>
    obtain rfl : xs = [] := List.map_eq_nil_iff.mp hxs
    exact ⟨h0, (UInt32.add_zero _).symm, (UInt32.add_zero _).symm, hkey, rfl, rfl⟩
  | cons f fs ih =>
    rw [List.flatMap_cons] at hxs
    obtain ⟨ys, zs, rfl, hys, hzs⟩ := List.map_eq_append_iff.mp hxs
    have hf := hconf f List.mem_cons_self
    obtain ⟨hone, hrest⟩ := hfs.cons hf
    have hlen := toNat_rxPayloadLen hone hf
    rw [← hkey] at hlen
    obtain ⟨now, hnow, hfirst⟩ := rx_frame hf hlen h0 hys
    have hall := ih hrest (fun g hg => hconf g (List.mem_cons_of_mem _ hg)) hfirst.hdr
      (hfirst.keyType.trans hkey) hzs
    have hsplit : stamped (f :: fs) (ys ++ zs) = (f, now) :: stamped fs zs := by
      have hhead : (ys ++ zs).head?.map Prod.fst = some now := by
        cases ys with
        | nil => cases hnow
        | cons y ys => exact hnow
      have hdrop : (ys ++ zs).drop f.bytes.length = zs :=
        List.drop_left' (by rw [← hys, List.length_map])
      rw [stamped, hhead, hdrop]
      rfl
    rw [run_append, hsplit]
    have hinner : f.type.code = msgInnerData ↔ f.type = .innerData :=
      MsgType.code_inj (b := .innerData)
    have houter : f.type.code = msgOuterData ↔ f.type = .outerData :=
      MsgType.code_inj (b := .outerData)
    refine ⟨hall.hdr, ?_, ?_, hall.keyType, ?_, ?_⟩
    · rw [hall.inner, hfirst.inner, stamps_cons, ← ofNat_length_append]
      simp only [begun, hinner]
      split_ifs <;> rfl
    · rw [hall.outer, hfirst.outer, stamps_cons, ← ofNat_length_append]
      simp only [begun, houter]
      split_ifs <;> rfl
    · rw [hall.build, hfirst.build, stamps_cons, List.foldl_append]
      simp only [begun, hinner]
      split_ifs <;> rfl
    · rw [hall.probe, hfirst.probe, stamps_cons, List.foldl_append]
      simp only [begun, houter]
      split_ifs <;> rfl

end RxFrames

/-! ## Stamps that are kept -/

theorem foldl_first_of_ne_zero {c : UInt64} (hc : c ≠ 0) (l : List UInt64) :
    l.foldl first c = c := by
  induction l with
  | nil => rfl
  | cons d l ih =>
    rw [List.foldl_cons, first, if_neg hc]
    exact ih

theorem foldl_first_of_zero {l : List UInt64} (h : ∀ d ∈ l, d = 0) : l.foldl first 0 = 0 := by
  induction l with
  | nil => rfl
  | cons d l ih =>
    rw [List.foldl_cons, first, if_pos rfl, h d List.mem_cons_self]
    exact ih fun c hc => h c (List.mem_cons_of_mem _ hc)

theorem zero_of_foldl_first {l : List UInt64} (h : l.foldl first 0 = 0) : ∀ d ∈ l, d = 0 := by
  induction l with
  | nil => simp
  | cons d l ih =>
    rw [List.foldl_cons, first, if_pos rfl] at h
    by_cases hd : d = 0
    · subst hd
      simpa using ih h
    · rw [foldl_first_of_ne_zero hd] at h
      exact absurd h hd

/-- The stamp is the first one if and only if the first one is kept. -/
theorem foldl_first_iff (l : List UInt64) : (∀ c ∈ l.head?, l.foldl first 0 = c) ↔ Kept l := by
  cases l with
  | nil => simp [Kept]
  | cons c l =>
    have hfold : (c :: l).foldl first 0 = l.foldl first c := rfl
    rw [Kept, hfold]
    simp only [List.head?_cons, Option.mem_some_iff, forall_eq']
    by_cases hc : c = 0
    · subst hc
      simp only [List.mem_cons, forall_eq_or_imp, true_and, forall_const]
      exact ⟨zero_of_foldl_first, foldl_first_of_zero⟩
    · simp [hc, foldl_first_of_ne_zero hc]

theorem Kept.of_isPrefix {l l' : List UInt64} (h : Kept l) (hpre : l' <+: l) : Kept l' := by
  intro c hc hzero d hd
  obtain ⟨rest, rfl⟩ := hpre
  cases l' with
  | nil => cases hd
  | cons c' l' => exact h c hc hzero d (List.mem_append_left _ hd)

/-! ## Moments -/

theorem length_rxSeen (s : Regs) (i : Pins) : (rxSeen s i).length ≤ 1 := by
  unfold rxSeen
  split <;> simp

theorem stamped_isPrefix {done fs : List HostFrame} {xs ys : List (UInt64 × UInt8)}
    (hdone : done <+: fs) (hxs : xs <+: ys) (hbytes : xs.map Prod.snd = done.flatMap HostFrame.bytes) :
    stamped done xs <+: stamped fs ys := by
  induction done generalizing fs xs ys with
  | nil => exact List.nil_prefix
  | cons f done ih =>
    obtain ⟨rest, rfl⟩ := hdone
    rw [List.flatMap_cons] at hbytes
    obtain ⟨as, bs, rfl, has, hbs⟩ := List.map_eq_append_iff.mp hbytes
    have hne : as ≠ [] := by
      rintro rfl
      exact f.bytes_ne_nil has.symm
    obtain ⟨more, rfl⟩ := hxs
    have hlen : f.bytes.length = as.length := by rw [← has, List.length_map]
    have hhead : (as ++ bs ++ more).head? = (as ++ bs).head? := by
      cases as with
      | nil => exact absurd rfl hne
      | cons a as => rfl
    have hdrop : (as ++ bs).drop f.bytes.length = bs := by rw [hlen, List.drop_left]
    have hdrop' : (as ++ bs ++ more).drop f.bytes.length = bs ++ more := by
      rw [hlen, List.append_assoc, List.drop_left]
    rw [stamped, List.cons_append, stamped, hhead, hdrop, hdrop', List.prefix_cons_inj]
    exact ih (List.prefix_append _ _) (List.prefix_append _ _) hbs

theorem stamps_isPrefix (ty : MsgType) {seen seen' : List (HostFrame × UInt64)}
    (h : seen <+: seen') : stamps ty seen <+: stamps ty seen' :=
  h.filterMap _

theorem map_fst_stamped (fs : List HostFrame) (xs : List (UInt64 × UInt8)) :
    (stamped fs xs).map Prod.fst = fs := by
  induction fs generalizing xs with
  | nil => rfl
  | cons f fs ih => rw [stamped, List.map_cons, ih]

theorem stamps_of_no_configure {fs : List HostFrame} (h : ∀ f ∈ fs, f.type ≠ .configure)
    (xs : List (UInt64 × UInt8)) : stamps .configure (stamped fs xs) = [] := by
  rw [stamps, List.filterMap_eq_nil_iff]
  intro x hx
  have hmem : x.1 ∈ fs := by
    rw [← map_fst_stamped fs xs]
    exact List.mem_map_of_mem hx
  exact if_neg (h x.1 hmem)

theorem lastKeyType_of_no_configure {fs : List HostFrame} (h : ∀ f ∈ fs, f.type ≠ .configure) :
    lastKeyType fs = keyInt32 := by
  have hnone : fs.filterMap keyType? = [] := by
    rw [List.filterMap_eq_nil_iff]
    intro f hf
    cases f with
    | configure p => exact absurd rfl (h _ hf)
    | data msg w ts => rfl
    | reset => rfl
  rw [lastKeyType, hnone]
  rfl

theorem ClientFrames.of_isPrefix {w : KeyType} {done fs : List HostFrame} (h : ClientFrames w fs)
    (hdone : done <+: fs) : ClientFrames w done := by
  induction done generalizing w fs with
  | nil => trivial
  | cons f done ih =>
    obtain ⟨rest, rfl⟩ := hdone
    cases f with
    | configure p =>
      have hrest : ClientFrames (KeyType.ofCode p.keyType) (done ++ rest) := h
      exact ih hrest (List.prefix_append _ _)
    | data msg w' ts => exact ⟨h.1, ih h.2 (List.prefix_append _ _)⟩
    | reset =>
      have hrest : ClientFrames w (done ++ rest) := h
      exact ih hrest (List.prefix_append _ _)

/-- The frames up to the first CONFIGURE. -/
theorem exists_first_configure {fs : List HostFrame} (h : ∃ f ∈ fs, f.type = .configure) :
    ∃ pre p post, fs = pre ++ .configure p :: post ∧ ∀ f ∈ pre, f.type ≠ .configure := by
  induction fs with
  | nil => simp at h
  | cons f fs ih =>
    by_cases hf : f.type = .configure
    · cases f with
      | configure p => exact ⟨[], p, fs, rfl, by simp⟩
      | data msg w ts => cases msg <;> cases hf
      | reset => cases hf
    · obtain ⟨g, hg, htype⟩ := h
      have hmem : g ∈ fs := by
        rcases List.mem_cons.mp hg with rfl | hmem
        · exact absurd htype hf
        · exact hmem
      obtain ⟨pre, p, post, rfl, hpre⟩ := ih ⟨g, hmem, htype⟩
      refine ⟨f :: pre, p, post, rfl, ?_⟩
      intro k hk
      rcases List.mem_cons.mp hk with rfl | hk
      · exact hf
      · exact hpre k hk

/-- **The receive parser.** The monitor follows the frames of the host exactly when there is no
CONFIGURE among them, the frame counters do not wrap around, and the first stamps are kept. -/
theorem rxFollows_iff {s₀ : Regs} {i₀ : Pins} (hreset : i₀.rstN = false) {cycles : List Pins}
    (hrun : ∀ i ∈ cycles, Running i) {fs : List HostFrame} (hfs : ClientFrames .int32 fs)
    (hbytes : (trace step rxSeen (step s₀ i₀) cycles).map Prod.snd =
      fs.flatMap HostFrame.bytes) :
    let seen := stamped fs (trace step rxSeen (step s₀ i₀) cycles)
    RxFollows (step s₀ i₀) cycles fs ↔
      (∀ f ∈ fs, f.type ≠ .configure) ∧
      (stamps .innerData seen).length < 2 ^ 32 ∧ (stamps .outerData seen).length < 2 ^ 32 ∧
      Kept (stamps .innerData seen) ∧ Kept (stamps .outerData seen) := by
  intro seen
  set s := step s₀ i₀ with hs
  have hstart : s.rx = .reset := by simp [hs, step, hreset]
  have hrx : ∀ pre, pre <+: cycles →
      (run step s pre).rx = run onRxByte .reset (trace step rxSeen s pre) := by
    intro pre hpre
    rw [← hstart]
    exact run_rx s fun i hi => hrun i (hpre.subset hi)
  -- what the registers are after frames without a CONFIGURE
  have hsum : ∀ pre done, pre <+: cycles → done <+: fs →
      (trace step rxSeen s pre).map Prod.snd = done.flatMap HostFrame.bytes →
      (∀ f ∈ done, f.type ≠ .configure) →
      RxSum (stamped done (trace step rxSeen s pre)) .reset (run step s pre).rx := by
    intro pre done hpre hdone hpb hnone
    rw [hrx pre hpre]
    exact rx_frames (hfs.of_isPrefix hdone) hnone rfl rfl hpb
  constructor
  · intro hfollows
    have hnone : ∀ f ∈ fs, f.type ≠ .configure := by
      by_contra hsome
      push Not at hsome
      obtain ⟨before, p, after, rfl, hbefore⟩ := exists_first_configure hsome
      -- the moment at which the CONFIGURE is complete
      have hdone : before ++ [HostFrame.configure p] <+: before ++ .configure p :: after :=
        ⟨after, by simp⟩
      have hlen : ((before ++ [HostFrame.configure p]).flatMap HostFrame.bytes).length ≤
          (trace step rxSeen s cycles).length := by
        rw [← List.length_map (f := Prod.snd), hbytes]
        exact (hdone.flatMap _).length_le
      obtain ⟨pre, hpre, htrace⟩ := exists_moment length_rxSeen hlen
      have hpb : (trace step rxSeen s pre).map Prod.snd =
          (before ++ [HostFrame.configure p]).flatMap HostFrame.bytes := by
        rw [htrace, List.map_take, hbytes]
        exact (List.prefix_iff_eq_take.mp (hdone.flatMap _)).symm
      have hzero := (hfollows pre _ hpre hdone hpb).hdr
      rw [List.flatMap_append, List.flatMap_singleton] at hpb
      obtain ⟨xs, ys, hxys, hxs, hys⟩ := List.map_eq_append_iff.mp hpb
      have hbase := rx_frames (r := .reset) (hfs.of_isPrefix (List.prefix_append _ _)) hbefore
        rfl rfl hxs
      rw [hrx pre hpre, hxys, run_append, rx_configure hbase.hdr hys] at hzero
      cases hzero
    have hin := hfollows cycles fs (List.prefix_refl _) (List.prefix_refl _) hbytes
    have hall := hsum cycles fs (List.prefix_refl _) (List.prefix_refl _) hbytes hnone
    refine ⟨hnone, ?_, ?_, ?_, ?_⟩
    · rw [← hin.inner]
      exact UInt32.toNat_lt _
    · rw [← hin.outer]
      exact UInt32.toNat_lt _
    · rw [← foldl_first_iff]
      exact fun c hc => hall.build.symm.trans (hin.build c hc)
    · rw [← foldl_first_iff]
      exact fun c hc => hall.probe.symm.trans (hin.probe c hc)
  · rintro ⟨hnone, hinner, houter, hbuild, hprobe⟩ pre done hpre hdone hpb
    have hnone' : ∀ f ∈ done, f.type ≠ .configure := fun f hf => hnone f (hdone.subset hf)
    have hall := hsum pre done hpre hdone hpb hnone'
    have hseen := stamped_isPrefix hdone (trace_isPrefix step rxSeen hpre) hpb
    have hinner' := stamps_isPrefix .innerData hseen
    have houter' := stamps_isPrefix .outerData hseen
    have hcount : ∀ {l' l : List UInt64}, l' <+: l → l.length < 2 ^ 32 →
        (0 + UInt32.ofNat l'.length).toNat = l'.length := by
      intro l' l hl hlt
      rw [UInt32.zero_add]
      exact UInt32.toNat_ofNat_of_lt' (lt_of_le_of_lt hl.length_le hlt)
    refine ⟨hall.hdr, ?_, ?_, ?_, ?_, ?_, ?_⟩
    · rw [hall.inner]
      exact hcount hinner' hinner
    · rw [hall.outer]
      exact hcount houter' houter
    · rw [hall.keyType, map_fst_stamped, lastKeyType_of_no_configure hnone']
    · intro c hc
      rw [stamps_of_no_configure hnone'] at hc
      cases hc
    · intro c hc
      rw [hall.build]
      exact (foldl_first_iff _).mpr (hbuild.of_isPrefix hinner') c hc
    · intro c hc
      rw [hall.probe]
      exact (foldl_first_iff _).mpr (hprobe.of_isPrefix houter') c hc

/-- A byte from the host in each cycle. -/
def fromHost (bs : List UInt8) : List Pins :=
  bs.map fun b => ⟨true, false, b, true, true, 0, false, false⟩

/-- The registers after reset. -/
def started : Regs := step ⟨7, .reset, .reset⟩ ⟨false, false, 0, false, false, 0, false, false⟩

def oneInnerFrame : List HostFrame := [.data .inner .int32 [(-1, ⟨3, 4⟩)], .reset]

theorem rxFollows_oneInnerFrame :
    RxFollows started (fromHost (oneInnerFrame.flatMap HostFrame.bytes)) oneInnerFrame := by
  have hrun : ∀ i ∈ fromHost (oneInnerFrame.flatMap HostFrame.bytes), Running i := by decide
  refine (rxFollows_iff ?_ hrun ?_ ?_).mpr ⟨?_, ?_, ?_, ?_, ?_⟩
  · rfl
  · exact ⟨⟨rfl, by decide⟩, trivial⟩
  · decide +kernel
  · decide
  · decide +kernel
  · decide +kernel
  · decide +kernel
  · decide +kernel

/-- The CONFIGURE of a session with one tuple on each side. -/
def oneTupleConfigure : HostFrame := .configure ⟨0x00, 0x01, 512, 1, 1, 0x02⟩

theorem configure_loses_boundary :
    ClientFrames .int32 [oneTupleConfigure] ∧
      ¬ RxFollows started (fromHost oneTupleConfigure.bytes) [oneTupleConfigure] := by
  refine ⟨trivial, fun hfollows => ?_⟩
  have hin := hfollows _ _ (List.prefix_refl _) (List.prefix_refl _) (by decide +kernel)
  exact absurd hin.hdr (by decide +kernel)

end FpgaHashJoin.AxisProtocolTimingMonitor
