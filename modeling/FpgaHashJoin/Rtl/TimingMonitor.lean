import FpgaHashJoin.Clocked
import FpgaHashJoin.Host.ResultDecoder

/-!
# The timing monitor

`axis_protocol_timing_monitor.v` watches the bytes that are handed over in the two directions
and parses them on its own: three header bytes, then a payload whose length it computes from
the header. The registers are grouped by the block that writes them, so that the receive side
and the transmit side are two machines that share nothing but the cycle counter. Each of them
moves on a byte only, and what it becomes depends on the bytes and on the counter at each of
them, not on the stalls in between (`run_rx`, `run_tx`).

The second half of the module follows the transmit side through the frames of the kernel: after
a whole frame the parser is back at the start of a header and has counted this frame
(`tx_frame`), so after any number of frames it has counted all of them (`txFollows`).
-/

namespace FpgaHashJoin.AxisProtocolTimingMonitor

open Clocked LittleEndian ResultDecoder

/-! ## Constants -/

def msgConfigure : UInt8 := 0x01
def msgInnerData : UInt8 := 0x02
def msgOuterData : UInt8 := 0x03
def msgResult : UInt8 := 0x04
def msgAck : UInt8 := 0x05
def msgStatus : UInt8 := 0x06
def msgError : UInt8 := 0x07
def msgReset : UInt8 := 0x08
def msgDebug : UInt8 := 0x09
def msgTiming : UInt8 := 0x0A

def phaseBuilding : UInt8 := 0x01
def phaseProbing : UInt8 := 0x02
def phaseDone : UInt8 := 0x03

def keyInt32 : UInt8 := 0x01
def keyInt64 : UInt8 := 0x02

/-! ## Registers -/

/-- The input pins. -/
structure Pins where
  rstN : Bool
  clear : Bool
  rxTdata : UInt8
  rxTvalid : Bool
  rxTready : Bool
  txTdata : UInt8
  txTvalid : Bool
  txTready : Bool
  deriving DecidableEq

/-- The registers of the receive side. -/
structure RxRegs where
  hdrIdx : Fin 4
  msg : UInt8
  count : UInt16
  payloadRemaining : UInt32
  payloadIndex : UInt32
  keyType : UInt8
  bytesRx : UInt32
  innerFrames : UInt32
  outerFrames : UInt32
  tsConfigFirst : UInt64
  tsBuildFirst : UInt64
  tsBuildLast : UInt64
  tsProbeFirst : UInt64
  tsProbeLast : UInt64
  deriving DecidableEq

/-- The registers of the transmit side. -/
structure TxRegs where
  hdrIdx : Fin 4
  msg : UInt8
  count : UInt16
  payloadRemaining : UInt32
  payloadIndex : UInt32
  phase : UInt8
  bytesTx : UInt32
  resultFrames : UInt32
  ackFrames : UInt32
  debugFrames : UInt32
  statusFrames : UInt32
  timingFrames : UInt32
  timingValid : Bool
  tsConfigAck : UInt64
  tsBuildAckLast : UInt64
  tsProbeAckLast : UInt64
  tsResultFirst : UInt64
  tsResultLast : UInt64
  tsTimingFirst : UInt64
  tsDoneStatus : UInt64
  deriving DecidableEq

structure Regs where
  cycleCounter : UInt64
  rx : RxRegs
  tx : TxRegs
  deriving DecidableEq

/-- The receive side after `reset_measurements`. -/
def RxRegs.reset : RxRegs where
  hdrIdx := 0
  msg := 0
  count := 0
  payloadRemaining := 0
  payloadIndex := 0
  keyType := keyInt32
  bytesRx := 0
  innerFrames := 0
  outerFrames := 0
  tsConfigFirst := 0
  tsBuildFirst := 0
  tsBuildLast := 0
  tsProbeFirst := 0
  tsProbeLast := 0

/-- The transmit side after `reset_measurements`. -/
def TxRegs.reset : TxRegs where
  hdrIdx := 0
  msg := 0
  count := 0
  payloadRemaining := 0
  payloadIndex := 0
  phase := 0
  bytesTx := 0
  resultFrames := 0
  ackFrames := 0
  debugFrames := 0
  statusFrames := 0
  timingFrames := 0
  timingValid := false
  tsConfigAck := 0
  tsBuildAckLast := 0
  tsProbeAckLast := 0
  tsResultFirst := 0
  tsResultLast := 0
  tsTimingFirst := 0
  tsDoneStatus := 0

/-! ## The receive side -/

def rxPayloadLen (msg : UInt8) (count : UInt16) (keyT : UInt8) : UInt32 :=
  if msg = msgConfigure then if count = 1 then 12 else 0
  else if msg = msgInnerData ∨ msg = msgOuterData then
    count.toUInt32 * if keyT = keyInt64 then 14 else 10
  else if msg = msgReset then 0
  else 0

/-- The end of a frame: DATA frames are counted. -/
def rxFrameDone (now : UInt64) (r : RxRegs) : RxRegs :=
  if r.msg = msgInnerData then
    { r with innerFrames := r.innerFrames + 1, tsBuildLast := now }
  else if r.msg = msgOuterData then
    { r with outerFrames := r.outerFrames + 1, tsProbeLast := now }
  else r

/-- A time stamp that is taken once; zero stands for "not taken". -/
def first (ts now : UInt64) : UInt64 := if ts = 0 then now else ts

/-- A byte from the host. -/
def onRxByte (r : RxRegs) (x : UInt64 × UInt8) : RxRegs :=
  let now := x.1
  let b := x.2
  let r := { r with bytesRx := r.bytesRx + 1 }
  match r.hdrIdx with
  | 0 =>
    { r with
      msg := b
      hdrIdx := 1
      tsConfigFirst := if b = msgConfigure then first r.tsConfigFirst now else r.tsConfigFirst
      tsBuildFirst := if b = msgInnerData then first r.tsBuildFirst now else r.tsBuildFirst
      tsProbeFirst := if b = msgOuterData then first r.tsProbeFirst now else r.tsProbeFirst }
  | 1 => { r with count := word16 b (r.count >>> 8).toUInt8, hdrIdx := 2 }
  | 2 =>
    let count := word16 r.count.toUInt8 b
    let len := rxPayloadLen r.msg count r.keyType
    let r := { r with count := count, payloadRemaining := len, payloadIndex := 0 }
    if len = 0 then { rxFrameDone now r with hdrIdx := 0 } else { r with hdrIdx := 3 }
  | 3 =>
    let r' := { r with
      keyType := if r.msg = msgConfigure ∧ r.payloadIndex = 1 then b else r.keyType
      payloadIndex := r.payloadIndex + 1 }
    if r.payloadRemaining ≤ 1 then
      { rxFrameDone now r' with payloadRemaining := 0, hdrIdx := 0 }
    else { r' with payloadRemaining := r.payloadRemaining - 1 }

/-! ## The transmit side -/

def txPayloadLen (msg : UInt8) (count : UInt16) : UInt32 :=
  if msg = msgAck ∨ msg = msgStatus then if count = 1 then 12 else 0
  else if msg = msgResult then count.toUInt32 * 12
  else if msg = msgError then 1
  else if msg = msgDebug then 7
  else if msg = msgTiming then 200
  else 0

/-- The end of a frame. The phase is the one of the earlier payload bytes: in a payload of one
byte it has not been stored yet. -/
def txFrameDone (now : UInt64) (t : TxRegs) : TxRegs :=
  if t.msg = msgResult then { t with resultFrames := t.resultFrames + 1, tsResultLast := now }
  else if t.msg = msgTiming then { t with timingFrames := t.timingFrames + 1 }
  else if t.msg = msgDebug then { t with debugFrames := t.debugFrames + 1 }
  else if t.msg = msgAck then
    let building := t.phase = phaseBuilding ∨ t.payloadIndex = 0
    { t with
      ackFrames := t.ackFrames + 1
      tsConfigAck := if building then first t.tsConfigAck now else t.tsConfigAck
      tsBuildAckLast := if building then now else t.tsBuildAckLast
      tsProbeAckLast := if t.phase = phaseProbing then now else t.tsProbeAckLast }
  else if t.msg = msgStatus then
    let done := t.phase = phaseDone ∨ t.payloadIndex = 0
    { t with
      statusFrames := t.statusFrames + 1
      tsDoneStatus := if done then now else t.tsDoneStatus
      timingValid := if done then true else t.timingValid }
  else t

/-- A byte from the kernel. -/
def onTxByte (t : TxRegs) (x : UInt64 × UInt8) : TxRegs :=
  let now := x.1
  let b := x.2
  let t := { t with bytesTx := t.bytesTx + 1 }
  match t.hdrIdx with
  | 0 =>
    { t with
      msg := b
      hdrIdx := 1
      tsResultFirst := if b = msgResult then first t.tsResultFirst now else t.tsResultFirst
      tsTimingFirst := if b = msgTiming then first t.tsTimingFirst now else t.tsTimingFirst }
  | 1 => { t with count := word16 b (t.count >>> 8).toUInt8, hdrIdx := 2 }
  | 2 =>
    let count := word16 t.count.toUInt8 b
    let len := txPayloadLen t.msg count
    { t with
      count := count
      payloadRemaining := len
      payloadIndex := 0
      phase := 0
      hdrIdx := if len = 0 then 0 else 3 }
  | 3 =>
    let t' :=
      if t.payloadRemaining ≤ 1 then { txFrameDone now t with payloadRemaining := 0, hdrIdx := 0 }
      else { t with payloadRemaining := t.payloadRemaining - 1 }
    { t' with
      phase := if (t.msg = msgAck ∨ t.msg = msgStatus) ∧ t.payloadIndex = 0 then b else t.phase
      payloadIndex := t.payloadIndex + 1 }

/-! ## The circuit -/

/-- The byte from the host that is handed over in a cycle, with the cycle counter. -/
def rxSeen (s : Regs) (i : Pins) : List (UInt64 × UInt8) :=
  if i.rxTvalid && i.rxTready then [(s.cycleCounter, i.rxTdata)] else []

/-- The byte from the kernel that is handed over in a cycle, with the cycle counter. -/
def txSeen (s : Regs) (i : Pins) : List (UInt64 × UInt8) :=
  if i.txTvalid && i.txTready then [(s.cycleCounter, i.txTdata)] else []

/-- One cycle. -/
def step (s : Regs) (i : Pins) : Regs :=
  if !i.rstN then ⟨0, .reset, .reset⟩
  else if i.clear then ⟨s.cycleCounter + 1, .reset, .reset⟩
  else ⟨s.cycleCounter + 1, (rxSeen s i).foldl onRxByte s.rx, (txSeen s i).foldl onTxByte s.tx⟩

/-- Neither reset nor clear. -/
def Running (i : Pins) : Prop := i.rstN = true ∧ i.clear = false

instance (i : Pins) : Decidable (Running i) := inferInstanceAs (Decidable (_ ∧ _))

theorem step_running {s : Regs} {i : Pins} (hi : Running i) : step s i =
    ⟨s.cycleCounter + 1, (rxSeen s i).foldl onRxByte s.rx, (txSeen s i).foldl onTxByte s.tx⟩ := by
  simp [step, hi.1, hi.2]

/-- **The receive side depends on the bytes and the counter at each of them only.** -/
theorem run_rx (s : Regs) {cycles : List Pins} (hrun : ∀ i ∈ cycles, Running i) :
    (run step s cycles).rx = run onRxByte s.rx (trace step rxSeen s cycles) :=
  run_view Regs.rx onRxByte (fun s i hi => by rw [step_running hi]; rfl) hrun

/-- **The transmit side depends on the bytes and the counter at each of them only.** -/
theorem run_tx (s : Regs) {cycles : List Pins} (hrun : ∀ i ∈ cycles, Running i) :
    (run step s cycles).tx = run onTxByte s.tx (trace step txSeen s cycles) :=
  run_view Regs.tx onTxByte (fun s i hi => by rw [step_running hi]; rfl) hrun

/-! ## The transmit side over a frame -/

/-- The counter of the frames of a type. -/
def TxRegs.frames (t : TxRegs) : MsgType → UInt32
  | .result => t.resultFrames
  | .ack => t.ackFrames
  | .debug => t.debugFrames
  | .status => t.statusFrames
  | .timing => t.timingFrames
  | _ => 0

/-- The types that have a counter. -/
def Counted (ty : MsgType) : Prop :=
  ty = .result ∨ ty = .ack ∨ ty = .debug ∨ ty = .status ∨ ty = .timing

/-- Inside of a payload: what the parser still knows of the header, how many bytes are to come
and how many there were, and that nothing has been counted since `t₀`. -/
structure TxInside (msg : UInt8) (left k : Nat) (ph : UInt8) (t₀ t : TxRegs) : Prop where
  hdr : t.hdrIdx = 3
  msg_eq : t.msg = msg
  left_eq : t.payloadRemaining.toNat = left
  index : t.payloadIndex.toNat = k
  phase : t.phase = ph
  frames : t.frames = t₀.frames
  valid : t.timingValid = t₀.timingValid

section TxFrames

variable {msg ph : UInt8} {left k : Nat} {t₀ t : TxRegs}

theorem toUInt8_word16 (b c : UInt8) : (word16 b c).toUInt8 = b := by
  unfold word16
  apply UInt8.eq_of_toBitVec_eq
  apply BitVec.eq_of_getLsbD_eq
  intro i hi
  simp

/-- The header of a frame that has a payload. -/
theorem tx_header (h0 : t.hdrIdx = 0) {count : UInt16} (hlen : txPayloadLen msg count ≠ 0)
    {xs : List (UInt64 × UInt8)} (hxs : xs.map Prod.snd = msg :: bytes16 count) :
    TxInside msg (txPayloadLen msg count).toNat 0 0 t (run onTxByte t xs) := by
  obtain ⟨⟨n₀, b₀⟩, ⟨n₁, b₁⟩, ⟨n₂, b₂⟩, rfl⟩ : ∃ x y z, xs = [x, y, z] :=
    List.length_eq_three.mp (by rw [← List.length_map (f := Prod.snd), hxs]; rfl)
  simp only [List.map_cons, List.map_nil, bytes16, List.cons.injEq, and_true] at hxs
  obtain ⟨rfl, rfl, rfl⟩ := hxs
  have hcount : ∀ c : UInt16, word16 (word16 count.toUInt8 (c >>> 8).toUInt8).toUInt8
      (count >>> 8).toUInt8 = count := by
    intro c
    rw [toUInt8_word16, word16_bytes16]
  refine ⟨?_, ?_, ?_, ?_, ?_, ?_, ?_⟩
  case refine_6 =>
    funext ty
    cases ty <;> simp [onTxByte, h0, TxRegs.frames]
  all_goals simp [onTxByte, h0, hcount, hlen]

/-- A payload byte that is not the last one. -/
theorem tx_more (h : TxInside msg (left + 2) k ph t₀ t) (hk : k + 1 < 2 ^ 32)
    (x : UInt64 × UInt8) : TxInside msg (left + 1) (k + 1)
      (if (msg = msgAck ∨ msg = msgStatus) ∧ k = 0 then x.2 else ph) t₀ (onTxByte t x) := by
  have hmore : ¬ t.payloadRemaining ≤ 1 := by
    rw [UInt32.le_iff_toNat_le, h.left_eq]
    simp
  have hzero : t.payloadIndex = 0 ↔ k = 0 := by
    rw [← UInt32.toNat_inj, h.index]
    rfl
  have hnext : onTxByte t x = { t with
      bytesTx := t.bytesTx + 1
      payloadRemaining := t.payloadRemaining - 1
      phase := if (t.msg = msgAck ∨ t.msg = msgStatus) ∧ t.payloadIndex = 0 then x.2 else t.phase
      payloadIndex := t.payloadIndex + 1 } := by
    simp [onTxByte, h.hdr, hmore]
  rw [hnext]
  refine ⟨h.hdr, h.msg_eq, ?_, ?_, ?_, ?_, h.valid⟩
  · have hle : (1 : UInt32) ≤ t.payloadRemaining := by
      rw [UInt32.le_iff_toNat_le, h.left_eq]
      simp
    rw [UInt32.toNat_sub_of_le _ _ hle, h.left_eq]
    rfl
  · rw [UInt32.toNat_add, h.index]
    exact Nat.mod_eq_of_lt hk
  · simp only [h.msg_eq, hzero, h.phase]
  · rw [← h.frames]
    funext ty
    cases ty <;> rfl

/-- The payload between its first and its last byte. -/
theorem tx_middle {xs : List (UInt64 × UInt8)} (h : TxInside msg (xs.length + 1) (k + 1) ph t₀ t)
    (hk : k + 1 + xs.length < 2 ^ 32) :
    TxInside msg 1 (k + 1 + xs.length) ph t₀ (run onTxByte t xs) := by
  induction xs generalizing t k with
  | nil => exact h
  | cons x xs ih =>
    rw [List.length_cons] at h hk ⊢
    have hmore := tx_more h (by omega) x
    rw [if_neg fun hzero => Nat.succ_ne_zero k hzero.2] at hmore
    rw [run_cons, show k + 1 + (xs.length + 1) = k + 1 + 1 + xs.length by omega]
    exact ih hmore (by omega)

/-- What the last payload byte does. -/
structure TxCounted (msg : UInt8) (done : Prop) (t₀ t : TxRegs) : Prop where
  hdr : t.hdrIdx = 0
  frames : ∀ ty, Counted ty → t.frames ty = t₀.frames ty + if msg = ty.code then 1 else 0
  valid : t.timingValid = true ↔ t₀.timingValid = true ∨ msg = msgStatus ∧ done

theorem frames_txFrameDone (now : UInt64) (t : TxRegs) {ty : MsgType} (hty : Counted ty) :
    (txFrameDone now t).frames ty = t.frames ty + if t.msg = ty.code then 1 else 0 := by
  -- the tests of the source are on different codes, so at most one of them holds
  generalize hdone : txFrameDone now t = t'
  unfold txFrameDone at hdone
  split_ifs at hdone
  all_goals
    subst hdone
    rcases hty with rfl | rfl | rfl | rfl | rfl
    all_goals
      simp_all [TxRegs.frames, MsgType.code, msgResult, msgTiming, msgDebug, msgAck, msgStatus]

theorem valid_txFrameDone (now : UInt64) (t : TxRegs) : (txFrameDone now t).timingValid = true ↔
    t.timingValid = true ∨ t.msg = msgStatus ∧ (t.phase = phaseDone ∨ t.payloadIndex = 0) := by
  generalize hdone : txFrameDone now t = t'
  unfold txFrameDone at hdone
  split_ifs at hdone
  all_goals
    subst hdone
    simp_all [msgResult, msgTiming, msgDebug, msgAck, msgStatus]
  exact or_comm

/-- The last byte of a payload. -/
theorem tx_last (h : TxInside msg 1 k ph t₀ t) (x : UInt64 × UInt8) :
    TxCounted msg (ph = phaseDone ∨ k = 0) t₀ (onTxByte t x) := by
  have hlast : t.payloadRemaining ≤ 1 := by
    rw [UInt32.le_iff_toNat_le, h.left_eq]
    rfl
  have hzero : t.payloadIndex = 0 ↔ k = 0 := by
    rw [← UInt32.toNat_inj, h.index]
    rfl
  let t' : TxRegs := { t with bytesTx := t.bytesTx + 1 }
  have hnext : onTxByte t x = { txFrameDone x.1 t' with
      payloadRemaining := 0
      hdrIdx := 0
      phase := if (t.msg = msgAck ∨ t.msg = msgStatus) ∧ t.payloadIndex = 0 then x.2 else t.phase
      payloadIndex := t.payloadIndex + 1 } := by
    simp [onTxByte, h.hdr, hlast, t']
  rw [hnext]
  refine ⟨rfl, fun ty hty => ?_, ?_⟩
  · have hframes := frames_txFrameDone x.1 t' hty
    have hold : t'.frames ty = t₀.frames ty := by
      rw [← h.frames]
      cases ty <;> rfl
    rw [hold, show t'.msg = msg from h.msg_eq] at hframes
    rw [← hframes]
    cases ty <;> rfl
  · have hvalid := valid_txFrameDone x.1 t'
    rw [show t'.timingValid = t₀.timingValid from h.valid, show t'.msg = msg from h.msg_eq,
      show t'.phase = ph from h.phase] at hvalid
    exact hvalid.trans (by rw [show t'.payloadIndex = t.payloadIndex from rfl, hzero])

/-- A whole payload. -/
theorem tx_payload {b : UInt8} {bs : List UInt8} {xs : List (UInt64 × UInt8)}
    (h : TxInside msg (b :: bs).length 0 0 t₀ t) (hxs : xs.map Prod.snd = b :: bs)
    (hlen : bs.length < 2 ^ 31) :
    TxCounted msg (bs = [] ∨ (msg = msgAck ∨ msg = msgStatus) ∧ b = phaseDone) t₀
      (run onTxByte t xs) := by
  obtain ⟨x, ys, rfl⟩ : ∃ x ys, xs = x :: ys := by
    cases xs with
    | nil => cases hxs
    | cons x ys => exact ⟨x, ys, rfl⟩
  rw [List.map_cons, List.cons.injEq] at hxs
  obtain ⟨rfl, hys⟩ := hxs
  rcases List.eq_nil_or_concat ys with rfl | ⟨zs, y, rfl⟩
  · obtain rfl : bs = [] := hys.symm
    simpa using tx_last h x
  · have hbs : bs.length = zs.length + 1 := by rw [← hys]; simp
    have hne : bs ≠ [] := List.ne_nil_of_length_pos (by omega)
    rw [List.length_cons, hbs] at h
    have hfirst := tx_more h (by omega) x
    have hmiddle := tx_middle hfirst (by omega)
    have hall := tx_last hmiddle y
    rw [run_cons, List.concat_eq_append, run_snoc]
    refine ⟨hall.hdr, hall.frames, hall.valid.trans ?_⟩
    have hphase : phaseDone ≠ 0 := by decide
    by_cases hmsg : msg = msgAck ∨ msg = msgStatus
    · simp [hmsg, hne]
    · simp [hmsg, hne, hphase.symm]

/-- The length that the monitor computes is the length of the payload. -/
theorem toNat_txPayloadLen {f : TxFrame} (hf : f.WellFormed) :
    (txPayloadLen f.type.code f.count).toNat = f.payload.length := by
  cases f with
  | ack p => rfl
  | status p => rfl
  | error code => rfl
  | timing t => exact (length_txTimingFields t).symm
  | debug level code value => rfl
  | results pairs =>
    have hcount := toNat_resultCount hf.2
    have hbound := hf.2
    rw [txBufSize_eq] at hbound
    have hlen : txPayloadLen msgResult (UInt16.ofNat pairs.length) =
        (UInt16.ofNat pairs.length).toUInt32 * 12 := rfl
    refine (congrArg UInt32.toNat hlen).trans ?_
    rw [UInt32.toNat_mul, UInt16.toNat_toUInt32, hcount]
    exact (Nat.mod_eq_of_lt (by simp; omega)).trans (length_flatMap_pairBytes pairs).symm

theorem length_payload (f : TxFrame) : f.payload.length =
    match f with
    | .ack _ => 12
    | .status _ => 12
    | .error _ => 1
    | .results pairs => pairs.length * 12
    | .timing _ => timingSummaryBytes
    | .debug _ _ _ => 7 := by
  cases f with
  | timing t => exact length_txTimingFields t
  | results pairs => exact length_flatMap_pairBytes pairs
  | ack | status | error | debug => rfl

theorem payload_bounds {f : TxFrame} (hf : f.WellFormed) :
    0 < f.payload.length ∧ f.payload.length < 2 ^ 31 := by
  rw [length_payload]
  cases f with
  | results pairs =>
    have hpos := List.length_pos_iff.mpr hf.1
    have hbound := hf.2
    rw [txBufSize_eq] at hbound
    dsimp only
    omega
  | ack | status | error | timing | debug => norm_num [timingSummaryBytes]

/-- **A frame of the kernel**: the parser is back at the start of a header and has counted the
frame. -/
theorem tx_frame {f : TxFrame} (hf : f.WellFormed) (h0 : t.hdrIdx = 0)
    {xs : List (UInt64 × UInt8)} (hxs : xs.map Prod.snd = f.bytes) :
    TxCounted f.type.code (∃ p, f = .status p ∧ p.phase = phaseDone) t (run onTxByte t xs) := by
  rw [TxFrame.bytes_eq hf, ← List.cons_append] at hxs
  obtain ⟨hs, ps, rfl, hhs, hps⟩ := List.map_eq_append_iff.mp hxs
  have hlen := toNat_txPayloadLen hf
  obtain ⟨hpos, hsmall⟩ := payload_bounds hf
  have hheader : TxInside f.type.code f.payload.length 0 0 t (run onTxByte t hs) := by
    rw [← hlen]
    refine tx_header h0 (fun hzero => ?_) hhs
    rw [hzero] at hlen
    exact absurd hlen (Nat.ne_of_lt hpos)
  obtain ⟨b, bs, hpayload⟩ := List.exists_cons_of_length_pos hpos
  rw [hpayload] at hheader hps hsmall
  have hall := tx_payload hheader hps (by rw [List.length_cons] at hsmall; omega)
  rw [run_append]
  refine ⟨hall.hdr, hall.frames, hall.valid.trans (or_congr_right (and_congr_right ?_))⟩
  intro hstatus
  cases f with
  | status p =>
    obtain ⟨rfl, rfl⟩ := List.cons.inj hpayload
    simp [hstatus]
  | ack | error | results | timing | debug =>
    exact absurd hstatus (by simp [TxFrame.type, MsgType.code, msgStatus])

/-- The frames of the kernel, one after the other. -/
theorem tx_frames {fs : List TxFrame} (hfs : ∀ f ∈ fs, f.WellFormed) (h0 : t.hdrIdx = 0)
    {xs : List (UInt64 × UInt8)} (hxs : xs.map Prod.snd = fs.flatMap TxFrame.bytes) :
    (run onTxByte t xs).hdrIdx = 0 ∧
    (∀ ty, Counted ty → (run onTxByte t xs).frames ty =
      t.frames ty + UInt32.ofNat (fs.countP fun f => f.type = ty)) ∧
    ((run onTxByte t xs).timingValid = true ↔
      t.timingValid = true ∨ ∃ p, TxFrame.status p ∈ fs ∧ p.phase = phaseDone) := by
  induction fs generalizing t xs with
  | nil =>
    obtain rfl : xs = [] := List.map_eq_nil_iff.mp hxs
    exact ⟨h0, fun ty _ => (UInt32.add_zero _).symm, by simp⟩
  | cons f fs ih =>
    rw [List.flatMap_cons] at hxs
    obtain ⟨ys, zs, rfl, hys, hzs⟩ := List.map_eq_append_iff.mp hxs
    have hfirst := tx_frame (hfs f List.mem_cons_self) h0 hys
    obtain ⟨hhdr, hframes, hvalid⟩ :=
      ih (fun g hg => hfs g (List.mem_cons_of_mem _ hg)) hfirst.hdr hzs
    rw [run_append]
    refine ⟨hhdr, fun ty hty => ?_, ?_⟩
    · rw [hframes ty hty, hfirst.frames ty hty, List.countP_cons, UInt32.add_assoc]
      congr 1
      by_cases hsame : f.type = ty
      · simp [hsame, UInt32.add_comm]
      · have hcode : f.type.code ≠ ty.code := fun h => hsame (MsgType.code_inj.mp h)
        simp [hsame, hcode]
    · rw [hvalid, hfirst.valid]
      constructor
      · rintro ((h | ⟨-, p, rfl, hp⟩) | ⟨p, hmem, hp⟩)
        · exact .inl h
        · exact .inr ⟨p, List.mem_cons_self, hp⟩
        · exact .inr ⟨p, List.mem_cons_of_mem _ hmem, hp⟩
      · rintro (h | ⟨p, hmem, hp⟩)
        · exact .inl (.inl h)
        · rcases List.mem_cons.mp hmem with rfl | hmem
          · exact .inl (.inr ⟨rfl, p, rfl, hp⟩)
          · exact .inr ⟨p, hmem, hp⟩

theorem bytesTx_onTxByte (t : TxRegs) (x : UInt64 × UInt8) :
    (onTxByte t x).bytesTx = t.bytesTx + 1 := by
  have hdone : ∀ now t, (txFrameDone now t).bytesTx = t.bytesTx := by
    intro now t
    generalize heq : txFrameDone now t = t'
    unfold txFrameDone at heq
    split_ifs at heq <;> subst heq <;> rfl
  unfold onTxByte
  simp only
  split
  · rfl
  · rfl
  · rfl
  · by_cases hlast : t.payloadRemaining ≤ 1
    · simp only [if_pos hlast]
      exact hdone _ _
    · simp only [if_neg hlast]

theorem bytesTx_run (t : TxRegs) (xs : List (UInt64 × UInt8)) :
    (run onTxByte t xs).bytesTx = t.bytesTx + UInt32.ofNat xs.length := by
  induction xs generalizing t with
  | nil => exact (UInt32.add_zero _).symm
  | cons x xs ih =>
    rw [run_cons, ih, bytesTx_onTxByte, List.length_cons, UInt32.ofNat_add, UInt32.add_assoc]
    congr 1
    exact UInt32.add_comm _ _

end TxFrames

/-- **The transmit parser.** After reset, and with any stalls and anything on the other side,
the bytes of the kernel's frames leave the parser at the start of a header with all frames and
bytes counted, and `timing_valid` says whether there was a STATUS with the phase DONE. -/
theorem txFollows {s₀ : Regs} {i₀ : Pins} (hreset : i₀.rstN = false) {cycles : List Pins}
    (hrun : ∀ i ∈ cycles, Running i) {fs : List TxFrame} (hfs : ∀ f ∈ fs, f.WellFormed)
    (hbytes : (trace step txSeen (step s₀ i₀) cycles).map Prod.snd = fs.flatMap TxFrame.bytes) :
    let t := (run step (step s₀ i₀) cycles).tx
    t.hdrIdx = 0 ∧
    t.resultFrames.toNat = fs.countP (fun f => f.type = .result) % 2 ^ 32 ∧
    t.ackFrames.toNat = fs.countP (fun f => f.type = .ack) % 2 ^ 32 ∧
    t.statusFrames.toNat = fs.countP (fun f => f.type = .status) % 2 ^ 32 ∧
    t.timingFrames.toNat = fs.countP (fun f => f.type = .timing) % 2 ^ 32 ∧
    t.debugFrames.toNat = fs.countP (fun f => f.type = .debug) % 2 ^ 32 ∧
    t.bytesTx.toNat = (fs.flatMap TxFrame.bytes).length % 2 ^ 32 ∧
    (t.timingValid = true ↔ ∃ p, TxFrame.status p ∈ fs ∧ p.phase = Phase.done.code) := by
  intro t
  have hstart : (step s₀ i₀).tx = .reset := by simp [step, hreset]
  have ht : t = run onTxByte .reset (trace step txSeen (step s₀ i₀) cycles) := by
    rw [← hstart]
    exact run_tx _ hrun
  obtain ⟨hhdr, hframes, hvalid⟩ := tx_frames (t := .reset) hfs rfl hbytes
  rw [← ht] at hhdr hframes hvalid
  have hcount : ∀ ty, Counted ty →
      (t.frames ty).toNat = fs.countP (fun f => f.type = ty) % 2 ^ 32 := by
    intro ty hty
    have hzero : TxRegs.reset.frames ty = 0 := by cases ty <;> rfl
    rw [hframes ty hty, hzero, UInt32.zero_add]
    exact UInt32.toNat_ofNat'
  have hlen : t.bytesTx.toNat = (fs.flatMap TxFrame.bytes).length % 2 ^ 32 := by
    rw [ht, bytesTx_run, ← hbytes, List.length_map]
    exact (congrArg UInt32.toNat (UInt32.zero_add _)).trans UInt32.toNat_ofNat'
  refine ⟨hhdr, hcount .result (.inl rfl), hcount .ack (.inr (.inl rfl)),
    hcount .status (.inr (.inr (.inr (.inl rfl)))), hcount .timing (.inr (.inr (.inr (.inr rfl)))),
    hcount .debug (.inr (.inr (.inl rfl))), hlen, ?_⟩
  refine hvalid.trans ⟨?_, .inr⟩
  rintro (hbefore | hdone)
  · cases hbefore
  · exact hdone

/-- A byte from the kernel in each cycle. -/
def fromKernel (bs : List UInt8) : List Pins :=
  bs.map fun b => ⟨true, false, 0, false, false, b, true, true⟩

def shortSession : List TxFrame :=
  [.ack ⟨1, 0, 512, 0, 0⟩, .results [(⟨4, 5⟩, ⟨6, 3⟩)], .status ⟨3, 0, 0, 1, 1⟩]

theorem txFollows_shortSession :
    (run step (step ⟨7, .reset, .reset⟩ ⟨false, false, 0, false, false, 0, false, false⟩)
      (fromKernel (shortSession.flatMap TxFrame.bytes))).tx.timingValid = true := by
  have hrun : ∀ i ∈ fromKernel (shortSession.flatMap TxFrame.bytes), Running i := by decide
  have hfs : ∀ f ∈ shortSession, f.WellFormed := by
    simp [shortSession, TxFrame.WellFormed, txBufSize]
  refine (txFollows ?_ hrun hfs ?_).2.2.2.2.2.2.2.mpr ⟨⟨3, 0, 0, 1, 1⟩, by simp [shortSession], rfl⟩
  · rfl
  · decide +kernel

end FpgaHashJoin.AxisProtocolTimingMonitor
