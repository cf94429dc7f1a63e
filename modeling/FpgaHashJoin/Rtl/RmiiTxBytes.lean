import FpgaHashJoin.Rtl.RmiiRxBytes

/-!
# The RMII transmitter

`rmii_tx_bytes.v`: the bytes of a frame are sent as dibits behind a preamble, and frames are
kept apart by the inter-frame gap. The state machine works on the rising edge of the clock;
the pins take its values on the falling edge, so that the other side sees them at the next
rising edge. A cycle of the model is a rising edge and the falling edge after it.

The time of a frame falls into pieces: the preamble, four dibits for every byte, and the gap.
For each piece there is a triple that says what the pins show and which byte is taken.
-/

namespace FpgaHashJoin.RmiiTxBytes

open Clocked RmiiRxBytes

structure Params where
  tenMbit : Bool
  halfDuplex : Bool

/-- The input pins. -/
structure Pins where
  rstN : Bool
  carrierSense : Bool
  sFrameTdata : Byte
  sFrameTvalid : Bool
  sFrameTlast : Bool
  deriving DecidableEq

inductive TxSt where
  | idle
  | preamble
  | data
  | ifg
  deriving DecidableEq, Repr

structure Regs where
  state : TxSt
  dibitCount : Nat
  preambleIndex : Nat
  tickCount : Nat
  ifgCount : Nat
  currentByte : Byte
  currentLast : Bool
  haveByte : Bool
  ethTxenCore : Bool
  ethTxdCore : Dibit
  ethTxen : Bool
  ethTxd : Dibit
  deriving DecidableEq

def Regs.reset : Regs where
  state := .idle
  dibitCount := 0
  preambleIndex := 0
  tickCount := 0
  ifgCount := 0
  currentByte := 0
  currentLast := false
  haveByte := false
  ethTxenCore := false
  ethTxdCore := 0
  ethTxen := false
  ethTxd := 0

def ifgCountInit (p : Params) : Nat := if p.tenMbit then 479 else 47

def advanceNow (p : Params) (t : Regs) : Bool := !p.tenMbit || t.tickCount = 0

def deferActive (p : Params) (i : Pins) : Bool := p.halfDuplex && i.carrierSense

def idleReady (p : Params) (t : Regs) (i : Pins) : Bool :=
  t.state = .idle && !deferActive p i && t.ifgCount = 0

def sFrameTready (p : Params) (t : Regs) (i : Pins) : Bool :=
  idleReady p t i || (t.state = .data && !t.haveByte && advanceNow p t)

def byteDibit (b : Byte) (idx : Nat) : Dibit :=
  match idx with
  | 0 => b.extractLsb' 0 2
  | 1 => b.extractLsb' 2 2
  | 2 => b.extractLsb' 4 2
  | _ => b.extractLsb' 6 2

def preambleByte (idx : Nat) : Byte := if idx = 7 then 0xd5 else 0x55

/-- What `arm_next_dibit` loads. -/
def armTick (p : Params) : Nat := if p.tenMbit then 9 else 0

def idleStep (p : Params) (t : Regs) (i : Pins) : Regs :=
  let t' := { t with
    ethTxenCore := false
    ethTxdCore := 0
    dibitCount := 0
    preambleIndex := 0
    tickCount := 0
    ifgCount := 0
    haveByte := false
    currentLast := false }
  if deferActive p i then { t' with ifgCount := ifgCountInit p }
  else if t.ifgCount ≠ 0 then { t' with ifgCount := t.ifgCount - 1 }
  else if i.sFrameTvalid then
    { t' with
      state := .preamble
      ethTxenCore := true
      ethTxdCore := byteDibit 0x55 0
      dibitCount := 1
      currentByte := i.sFrameTdata
      currentLast := i.sFrameTlast
      haveByte := true
      tickCount := armTick p }
  else t'

def preambleStep (p : Params) (t : Regs) : Regs :=
  let t' := { t with
    ethTxenCore := true
    ethTxdCore := byteDibit (preambleByte t.preambleIndex) t.dibitCount
    tickCount := armTick p }
  if t.dibitCount = 3 then
    if t.preambleIndex = 7 then { t' with dibitCount := 0, state := .data }
    else { t' with dibitCount := 0, preambleIndex := t.preambleIndex + 1 }
  else { t' with dibitCount := t.dibitCount + 1 }

def dataStep (p : Params) (t : Regs) (i : Pins) : Regs :=
  let t' := { t with ethTxenCore := true, tickCount := armTick p }
  if !t.haveByte then
    if i.sFrameTvalid then
      { t' with
        currentByte := i.sFrameTdata
        currentLast := i.sFrameTlast
        haveByte := true
        ethTxdCore := byteDibit i.sFrameTdata 0
        dibitCount := 1 }
    else { t' with ethTxdCore := 0 }
  else
    let t' := { t' with ethTxdCore := byteDibit t.currentByte t.dibitCount }
    if t.dibitCount = 3 then
      if t.currentLast then
        { t' with dibitCount := 0, haveByte := false, state := .ifg, ifgCount := ifgCountInit p }
      else { t' with dibitCount := 0, haveByte := false }
    else { t' with dibitCount := t.dibitCount + 1 }

def ifgStep (t : Regs) : Regs :=
  let t' := { t with
    ethTxenCore := false
    ethTxdCore := 0
    dibitCount := 0
    preambleIndex := 0
    tickCount := 0
    haveByte := false
    currentLast := false }
  if t.ifgCount = 0 then { t' with state := .idle } else { t' with ifgCount := t.ifgCount - 1 }

/-- The rising edge. -/
def posedge (p : Params) (t : Regs) (i : Pins) : Regs :=
  if !i.rstN then .reset
  else if p.tenMbit && t.tickCount ≠ 0 then { t with tickCount := t.tickCount - 1 }
  else
    match t.state with
    | .idle => idleStep p t i
    | .preamble => preambleStep p t
    | .data => dataStep p t i
    | .ifg => ifgStep t

/-- The falling edge. -/
def negedge (t : Regs) : Regs := { t with ethTxen := t.ethTxenCore, ethTxd := t.ethTxdCore }

def step (p : Params) (t : Regs) (i : Pins) : Regs := negedge (posedge p t i)

/-! ## What is shown and taken -/

/-- A byte with its end-of-frame flag. -/
abbrev Item := Byte × Bool

/-- The values on the line and the bytes that are taken with them. -/
abbrev Shown := (Bool × Dibit) × List Item

/-- The values on the line and the byte that is taken in a cycle. -/
def shows (p : Params) (t : Regs) (i : Pins) : List Shown :=
  [((t.ethTxen, t.ethTxd),
    if sFrameTready p t i && i.sFrameTvalid then [(i.sFrameTdata, i.sFrameTlast)] else [])]

abbrev TxTriple (p : Params) (P : Regs → Prop) (is : List Pins)
    (outs : List Shown) (Q : Regs → Prop) : Prop :=
  Triple (step p) (shows p) P is outs Q

/-- The dibits, each for one period. -/
def wave (tenMbit : Bool) (ds : List Dibit) : List (Bool × Dibit) :=
  ds.flatMap fun d => List.replicate (period tenMbit) (true, d)

theorem wave_cons (tenMbit : Bool) (d : Dibit) (ds : List Dibit) :
    wave tenMbit (d :: ds) = List.replicate (period tenMbit) (true, d) ++ wave tenMbit ds := rfl

/-- The transmitter is ready for a frame and shows nothing. -/
structure Resting (t : Regs) : Prop where
  state : t.state = .idle
  ifg : t.ifgCount = 0
  tick : t.tickCount = 0
  txen : t.ethTxen = false
  txd : t.ethTxd = 0

/-- In the middle of a frame: the registers, the dibit on the line, and the clocks until the
next one. -/
structure At (st : TxSt) (n k g : Nat) (h : Bool) (x : Item) (d : Dibit) (tick : Nat)
    (t : Regs) : Prop where
  state : t.state = st
  count : t.dibitCount = n
  index : t.preambleIndex = k
  ifg : t.ifgCount = g
  haveByte : t.haveByte = h
  byte : t.currentByte = x.1
  last : t.currentLast = x.2
  txen : t.ethTxen = true
  txd : t.ethTxd = d
  tick : t.tickCount = tick
  core : t.ethTxenCore = true ∧ t.ethTxdCore = d

section Clock

variable {p : Params} {st : TxSt} {n k g tick : Nat} {h : Bool} {x : Item} {d : Dibit} {t : Regs}
  {i : Pins}

/-- A clock of a period. -/
theorem step_tick (ht : At st n k g h x d (tick + 1) t) (hten : p.tenMbit = true)
    (hon : i.rstN = true) : step p t i = { t with tickCount := tick } := by
  obtain ⟨hen, hd⟩ := ht.core
  have hpos : posedge p t i = { t with tickCount := tick } := by
    simp [posedge, hon, hten, ht.tick]
  rw [step, hpos, negedge]
  simp [hen, hd, ht.txen, ht.txd]

section Act

variable (htick : t.tickCount = 0) (hon : i.rstN = true)

include htick hon

theorem step_idle (hst : t.state = .idle) : step p t i = negedge (idleStep p t i) := by
  simp [step, posedge, hon, htick, hst]

theorem step_preamble (hst : t.state = .preamble) : step p t i = negedge (preambleStep p t) := by
  simp [step, posedge, hon, htick, hst]

theorem step_data (hst : t.state = .data) : step p t i = negedge (dataStep p t i) := by
  simp [step, posedge, hon, htick, hst]

theorem step_ifg (hst : t.state = .ifg) : step p t i = negedge (ifgStep t) := by
  simp [step, posedge, hon, htick, hst]

end Act

/-- Nothing is taken while a period lasts. -/
theorem not_ready (hst : st ≠ .idle) (ht : At st n k g h x d (tick + 1) t)
    (hten : p.tenMbit = true) : sFrameTready p t i = false := by
  have hstate : ¬ t.state = .idle := by
    rw [ht.state]
    exact hst
  simp [sFrameTready, idleReady, advanceNow, hstate, hten, ht.tick]

theorem tx_ticks (hst : st ≠ .idle) (hten : p.tenMbit = true) {is : List Pins}
    (hon : ∀ i ∈ is, i.rstN = true) :
    TxTriple p (At st n k g h x d is.length) is (silent (List.replicate is.length (true, d)))
      (At st n k g h x d 0) := by
  induction is with
  | nil => exact Triple.nil _
  | cons i is ih =>
    refine Triple.append (Triple.one fun t ht => ?_ : TxTriple p _ [i] [((true, d), [])] _)
      (ih fun j hj => hon j (List.mem_cons_of_mem _ hj))
    rw [step_tick ht hten (hon i List.mem_cons_self), shows, not_ready hst ht hten]
    refine ⟨⟨ht.state, ht.count, ht.index, ht.ifg, ht.haveByte, ht.byte, ht.last, ht.txen, ht.txd,
      rfl, ht.core⟩, ?_⟩
    simp [ht.txen, ht.txd]

/-- The clocks of a period but the last one. -/
theorem tx_hold (hst : st ≠ .idle) {is : List Pins} (hlen : is.length = armTick p)
    (hon : ∀ i ∈ is, i.rstN = true) :
    TxTriple p (At st n k g h x d (armTick p)) is (silent (List.replicate (armTick p) (true, d)))
      (At st n k g h x d 0) := by
  by_cases hten : p.tenMbit = true
  · rw [← hlen]
    exact tx_ticks hst hten hon
  · have hzero : armTick p = 0 := by simp [armTick, hten]
    rw [hzero] at hlen ⊢
    obtain rfl := List.length_eq_zero_iff.mp hlen
    exact Triple.nil _

theorem period_eq (p : Params) : period p.tenMbit = armTick p + 1 := by
  unfold period armTick
  split <;> rfl

/-- A whole period; its last clock acts. -/
theorem tx_period {front : List Pins} {items : List Item} {Q : Regs → Prop} (hst : st ≠ .idle)
    (hlen : front.length = armTick p) (hon : ∀ j ∈ front, j.rstN = true)
    (hact : ∀ t, At st n k g h x d 0 t → Q (step p t i) ∧
      (if sFrameTready p t i && i.sFrameTvalid then [(i.sFrameTdata, i.sFrameTlast)] else []) =
        items) :
    TxTriple p (At st n k g h x d (armTick p)) (front ++ [i])
      (silent (List.replicate (armTick p) (true, d)) ++ [((true, d), items)]) Q := by
  refine (tx_hold hst hlen hon).append (Triple.one fun t ht => ?_)
  obtain ⟨hq, hitems⟩ := hact t ht
  refine ⟨hq, ?_⟩
  rw [shows, hitems, ht.txen, ht.txd]

/-- A period in which nothing is taken. -/
theorem tx_dibit {is : List Pins} {Q : Regs → Prop} (hst : st ≠ .idle)
    (hlen : is.length = period p.tenMbit) (hon : ∀ j ∈ is, j.rstN = true)
    (hbusy : st = .data → h = true)
    (hact : ∀ t i, At st n k g h x d 0 t → i.rstN = true → Q (step p t i)) :
    TxTriple p (At st n k g h x d (armTick p)) is (silent (wave p.tenMbit [d])) Q := by
  rw [period_eq] at hlen
  obtain ⟨front, i, rfl⟩ : ∃ front i, is = front ++ [i] := by
    have hne : is ≠ [] := List.ne_nil_of_length_pos (by omega)
    exact ⟨is.dropLast, is.getLast hne, (List.dropLast_append_getLast hne).symm⟩
  rw [List.length_append, List.length_singleton, Nat.succ_inj] at hlen
  have hwave : (silent (wave p.tenMbit [d]) : List Shown) =
      silent (List.replicate (armTick p) (true, d)) ++ [((true, d), [])] := by
    rw [wave, List.flatMap_singleton, period_eq, List.replicate_succ', silent_append]
    rfl
  rw [hwave]
  refine tx_period hst hlen (fun j hj => hon j (List.mem_append_left _ hj)) fun t ht => ?_
  refine ⟨hact t i ht (hon i (by simp)), ?_⟩
  have hready : sFrameTready p t i = false := by
    have hidle : ¬ t.state = .idle := by
      rw [ht.state]
      exact hst
    by_cases hdata : st = .data
    · simp [sFrameTready, idleReady, hidle, ht.haveByte, hbusy hdata]
    · have hnot : ¬ t.state = .data := by
        rw [ht.state]
        exact hdata
      simp [sFrameTready, idleReady, hidle, hnot]
  simp [hready]

end Clock

/-! ## The preamble -/

section Pieces

variable {p : Params} {n : Nat} {x : Item} {d : Dibit} {t : Regs} {i : Pins}

theorem byteDibit_eq (b : Byte) {n : Nat} (hn : n < 4) : byteDibit b n = dibit b n := by
  interval_cases n <;> rfl

/-- A dibit of the preamble before the last one. -/
theorem preamble_act {m : Nat} (hm : m < 31) (hon : i.rstN = true)
    (ht : At .preamble (m % 4) (m / 4) 0 true x d 0 t) :
    At .preamble ((m + 1) % 4) ((m + 1) / 4) 0 true x 1 (armTick p) (step p t i) := by
  have hdibit : byteDibit (preambleByte (m / 4)) (m % 4) = 1 := by
    have hall : ∀ m < 31, byteDibit (preambleByte (m / 4)) (m % 4) = 1 := by decide
    exact hall m hm
  have hstep : step p t i = negedge { t with
      ethTxenCore := true
      ethTxdCore := 1
      tickCount := armTick p
      dibitCount := (m + 1) % 4
      preambleIndex := (m + 1) / 4 } := by
    rw [step_preamble ht.tick hon ht.state]
    by_cases h3 : m % 4 = 3
    · have hk : ¬ m / 4 = 7 := by omega
      have hcount : (m + 1) % 4 = 0 := by omega
      have hindex : (m + 1) / 4 = m / 4 + 1 := by omega
      rw [h3] at hdibit
      simp [preambleStep, ht.index, ht.count, hdibit, h3, hk, hcount, hindex]
    · have hcount : (m + 1) % 4 = m % 4 + 1 := by omega
      have hindex : (m + 1) / 4 = m / 4 := by omega
      simp [preambleStep, ht.index, ht.count, hdibit, h3, hcount, hindex]
  rw [hstep]
  exact ⟨ht.state, rfl, rfl, ht.ifg, ht.haveByte, ht.byte, ht.last, rfl, rfl, rfl, rfl, rfl⟩

/-- The last dibit of the delimiter. -/
theorem preamble_end (hon : i.rstN = true) (ht : At .preamble 3 7 0 true x d 0 t) :
    At .data 0 7 0 true x 3 (armTick p) (step p t i) := by
  have hstep : step p t i = negedge { t with
      ethTxenCore := true
      ethTxdCore := 3
      tickCount := armTick p
      dibitCount := 0
      state := .data } := by
    have hdibit : byteDibit (preambleByte 7) 3 = 3 := by decide
    rw [step_preamble ht.tick hon ht.state]
    simp [preambleStep, ht.index, ht.count, hdibit]
  rw [hstep]
  exact ⟨rfl, rfl, ht.index, ht.ifg, ht.haveByte, ht.byte, ht.last, rfl, rfl, rfl, rfl, rfl⟩

/-- A dibit of a byte before the last one. -/
theorem data_act (hn : n < 3) (hon : i.rstN = true) (ht : At .data n 7 0 true x d 0 t) :
    At .data (n + 1) 7 0 true x (dibit x.1 n) (armTick p) (step p t i) := by
  have hstep : step p t i = negedge { t with
      ethTxenCore := true
      tickCount := armTick p
      ethTxdCore := dibit x.1 n
      dibitCount := n + 1 } := by
    have hne : ¬ n = 3 := by omega
    rw [step_data ht.tick hon ht.state]
    simp [dataStep, ht.haveByte, ht.count, ht.byte, hne, byteDibit_eq x.1 (by omega : n < 4)]
  rw [hstep]
  exact ⟨ht.state, rfl, ht.index, ht.ifg, ht.haveByte, ht.byte, ht.last, rfl, rfl, rfl, rfl, rfl⟩

/-- The last dibit of a byte. -/
theorem data_turn (hon : i.rstN = true) (ht : At .data 3 7 0 true x d 0 t) :
    At (if x.2 then .ifg else .data) 0 7 (if x.2 then ifgCountInit p else 0) false x (dibit x.1 3)
      (armTick p) (step p t i) := by
  obtain ⟨b, last⟩ := x
  have hlast := ht.last
  cases last with
  | false =>
    have hstep : step p t i = negedge { t with
        ethTxenCore := true
        tickCount := armTick p
        ethTxdCore := dibit b 3
        dibitCount := 0
        haveByte := false } := by
      rw [step_data ht.tick hon ht.state]
      simp [dataStep, ht.haveByte, ht.count, ht.byte, hlast, byteDibit_eq b (by decide : 3 < 4)]
    rw [hstep]
    exact ⟨ht.state, rfl, ht.index, ht.ifg, rfl, ht.byte, ht.last, rfl, rfl, rfl, rfl, rfl⟩
  | true =>
    have hstep : step p t i = negedge { t with
        ethTxenCore := true
        tickCount := armTick p
        ethTxdCore := dibit b 3
        dibitCount := 0
        haveByte := false
        state := .ifg
        ifgCount := ifgCountInit p } := by
      rw [step_data ht.tick hon ht.state]
      simp [dataStep, ht.haveByte, ht.count, ht.byte, hlast, byteDibit_eq b (by decide : 3 < 4)]
    rw [hstep]
    exact ⟨rfl, rfl, ht.index, rfl, rfl, ht.byte, ht.last, rfl, rfl, rfl, rfl, rfl⟩

/-- The next byte of the frame is taken. -/
theorem data_load (hon : i.rstN = true) (hvalid : i.sFrameTvalid = true)
    (ht : At .data 0 7 0 false x d 0 t) :
    At .data 1 7 0 true (i.sFrameTdata, i.sFrameTlast) (dibit i.sFrameTdata 0) (armTick p)
      (step p t i) := by
  have hstep : step p t i = negedge { t with
      ethTxenCore := true
      tickCount := armTick p
      currentByte := i.sFrameTdata
      currentLast := i.sFrameTlast
      haveByte := true
      ethTxdCore := dibit i.sFrameTdata 0
      dibitCount := 1 } := by
    rw [step_data ht.tick hon ht.state]
    simp [dataStep, ht.haveByte, hvalid, byteDibit_eq i.sFrameTdata (by decide : 0 < 4)]
  rw [hstep]
  exact ⟨ht.state, rfl, ht.index, ht.ifg, rfl, rfl, rfl, rfl, rfl, rfl, rfl, rfl⟩

/-- The first byte of a frame is taken. -/
theorem idle_load (hfull : p.halfDuplex = false) (hon : i.rstN = true)
    (hvalid : i.sFrameTvalid = true) (ht : Resting t) :
    At .preamble 1 0 0 true (i.sFrameTdata, i.sFrameTlast) 1 (armTick p) (step p t i) := by
  have hstep : step p t i = negedge { t with
      ethTxenCore := true
      ethTxdCore := 1
      dibitCount := 1
      preambleIndex := 0
      tickCount := armTick p
      ifgCount := 0
      haveByte := true
      currentLast := i.sFrameTlast
      state := .preamble
      currentByte := i.sFrameTdata } := by
    have hdibit : byteDibit 0x55#8 0 = 1#2 := by decide
    rw [step_idle ht.tick hon ht.state]
    simp [idleStep, deferActive, hfull, ht.ifg, hvalid, hdibit]
  rw [hstep]
  exact ⟨rfl, rfl, rfl, rfl, rfl, rfl, rfl, rfl, rfl, rfl, rfl, rfl⟩

theorem idle_quiet (hfull : p.halfDuplex = false) (hon : i.rstN = true)
    (hvalid : i.sFrameTvalid = false) (ht : Resting t) : Resting (step p t i) := by
  have hstep : step p t i = negedge { t with
      ethTxenCore := false
      ethTxdCore := 0
      dibitCount := 0
      preambleIndex := 0
      tickCount := 0
      ifgCount := 0
      haveByte := false
      currentLast := false } := by
    rw [step_idle ht.tick hon ht.state]
    simp [idleStep, deferActive, hfull, ht.ifg, hvalid]
  rw [hstep]
  exact ⟨ht.state, rfl, rfl, rfl, rfl⟩

/-- In the gap, with the given number of clocks still to count. -/
structure Gap (g : Nat) (t : Regs) : Prop where
  state : t.state = .ifg
  ifg : t.ifgCount = g
  tick : t.tickCount = 0
  txen : t.ethTxen = false
  txd : t.ethTxd = 0

/-- One clock of the gap. -/
theorem gap_step {g : Nat} (hon : i.rstN = true) (hstate : t.state = .ifg)
    (hifg : t.ifgCount = g + 1) (htick : t.tickCount = 0) : Gap g (step p t i) := by
  have hstep : step p t i = negedge { t with
      ethTxenCore := false
      ethTxdCore := 0
      dibitCount := 0
      preambleIndex := 0
      tickCount := 0
      haveByte := false
      currentLast := false
      ifgCount := g } := by
    rw [step_ifg htick hon hstate]
    simp [ifgStep, hifg]
  rw [hstep]
  exact ⟨hstate, rfl, rfl, rfl, rfl⟩

theorem gap_end (hon : i.rstN = true) (ht : Gap 0 t) : Resting (step p t i) := by
  have hstep : step p t i = negedge { t with
      ethTxenCore := false
      ethTxdCore := 0
      dibitCount := 0
      preambleIndex := 0
      tickCount := 0
      haveByte := false
      currentLast := false
      state := .idle } := by
    rw [step_ifg ht.tick hon ht.state]
    simp [ifgStep, ht.ifg]
  rw [hstep]
  exact ⟨rfl, ht.ifg, rfl, rfl, rfl⟩

/-! ## The pieces of a frame -/

/-- A byte has been taken for a new frame. -/
def Taken (p : Params) (x : Item) (t : Regs) : Prop :=
  At .preamble 1 0 0 true x 1 (armTick p) t

/-- The first dibit of a byte is on the line. -/
def ByteAt (p : Params) (x : Item) (t : Regs) : Prop :=
  At .data 1 7 0 true x (dibit x.1 0) (armTick p) t

theorem splitAt_length {α : Type} {l : List α} {m n : Nat} (h : l.length = m + n) :
    ∃ front back, l = front ++ back ∧ front.length = m ∧ back.length = n := by
  refine ⟨l.take m, l.drop m, (List.take_append_drop m l).symm, ?_, ?_⟩
  · rw [List.length_take]
    omega
  · rw [List.length_drop]
    omega

/-- The preamble up to its last dibit. -/
theorem tx_preambleDibits {j : Nat} (hj : j ≤ 30) {is : List Pins}
    (hlen : is.length = (j + 1) * period p.tenMbit) (hon : ∀ i ∈ is, i.rstN = true) :
    TxTriple p (At .preamble ((31 - j) % 4) ((31 - j) / 4) 0 true x 1 (armTick p)) is
      (silent (wave p.tenMbit (List.replicate (j + 1) 1))) (At .data 0 7 0 true x 3 (armTick p)) := by
  induction j generalizing is with
  | zero =>
    rw [Nat.one_mul] at hlen
    exact tx_dibit (by decide) hlen hon nofun fun t i ht hi => preamble_end hi ht
  | succ j ih =>
    rw [Nat.add_mul, Nat.one_mul, Nat.add_comm] at hlen
    obtain ⟨front, back, rfl, hfront, hback⟩ := splitAt_length hlen
    have hfirst : TxTriple p (At .preamble ((31 - (j + 1)) % 4) ((31 - (j + 1)) / 4) 0 true x 1
        (armTick p)) front (silent (wave p.tenMbit [1]))
        (At .preamble ((31 - j) % 4) ((31 - j) / 4) 0 true x 1 (armTick p)) := by
      have hnext : 31 - j = 31 - (j + 1) + 1 := by omega
      rw [hnext]
      exact tx_dibit (by decide) hfront (fun i hi => hon i (List.mem_append_left _ hi)) nofun
        fun t i ht hi => preamble_act (by omega) hi ht
    have hsplit : (silent (wave p.tenMbit (List.replicate (j + 1 + 1) 1)) : List Shown) =
        silent (wave p.tenMbit [1]) ++ silent (wave p.tenMbit (List.replicate (j + 1) 1)) := by
      rw [← silent_append]
      simp [wave, List.replicate_succ]
    rw [hsplit]
    exact hfirst.append (ih (by omega) hback fun i hi => hon i (List.mem_append_right _ hi))

/-- **The preamble.** -/
theorem tx_preamble {is : List Pins} (hlen : is.length = 32 * period p.tenMbit)
    (hon : ∀ i ∈ is, i.rstN = true) :
    TxTriple p (Taken p x) is (silent (wave p.tenMbit preambleDibits)) (ByteAt p x) := by
  have hlen' : is.length = (30 + 1) * period p.tenMbit + period p.tenMbit := by omega
  obtain ⟨front, back, rfl, hfront, hback⟩ := splitAt_length hlen'
  have hsplit : (silent (wave p.tenMbit preambleDibits) : List Shown) =
      silent (wave p.tenMbit (List.replicate 31 1)) ++ silent (wave p.tenMbit [3]) := by
    rw [← silent_append, wave, wave, wave, ← List.flatMap_append]
    rfl
  rw [hsplit]
  refine (tx_preambleDibits (by decide) hfront fun i hi => hon i (List.mem_append_left _ hi)).append
    (tx_dibit (by decide) hback (fun i hi => hon i (List.mem_append_right _ hi)) (fun _ => rfl) ?_)
  exact fun t i ht hi => data_act (by decide) hi ht

/-- Three dibits of a byte. -/
theorem tx_threeDibits {is : List Pins} (hlen : is.length = 3 * period p.tenMbit)
    (hon : ∀ i ∈ is, i.rstN = true) :
    TxTriple p (ByteAt p x) is (silent (wave p.tenMbit [dibit x.1 0, dibit x.1 1, dibit x.1 2]))
      (At (if x.2 then .ifg else .data) 0 7 (if x.2 then ifgCountInit p else 0) false x
        (dibit x.1 3) (armTick p)) := by
  have hlen' : is.length = period p.tenMbit + (period p.tenMbit + period p.tenMbit) := by omega
  obtain ⟨is₀, rest, rfl, hlen₀, hrest⟩ := splitAt_length hlen'
  obtain ⟨is₁, is₂, rfl, hlen₁, hlen₂⟩ := splitAt_length hrest
  have hsplit : (silent (wave p.tenMbit [dibit x.1 0, dibit x.1 1, dibit x.1 2]) : List Shown) =
      silent (wave p.tenMbit [dibit x.1 0]) ++ (silent (wave p.tenMbit [dibit x.1 1]) ++
        silent (wave p.tenMbit [dibit x.1 2])) := by
    rw [← silent_append, ← silent_append]
    simp [wave]
  rw [hsplit]
  refine (tx_dibit (by decide) hlen₀ (fun i hi => hon i (by simp [hi])) (fun _ => rfl)
    fun t i ht hi => data_act (by decide) hi ht).append ?_
  refine (tx_dibit (by decide) hlen₁ (fun i hi => hon i (by simp [hi])) (fun _ => rfl)
    fun t i ht hi => data_act (by decide) hi ht).append ?_
  exact tx_dibit (by decide) hlen₂ (fun i hi => hon i (by simp [hi])) (fun _ => rfl)
    fun t i ht hi => data_turn hi ht

/-- **A byte that is not the last one**, up to the clock that takes the next one. -/
theorem tx_byte {b : Byte} {is : List Pins} (hlen : is.length + 1 = 4 * period p.tenMbit)
    (hon : ∀ i ∈ is, i.rstN = true) :
    TxTriple p (ByteAt p (b, false)) is
      (silent (wave p.tenMbit [dibit b 0, dibit b 1, dibit b 2] ++
        List.replicate (armTick p) (true, dibit b 3)))
      (At .data 0 7 0 false (b, false) (dibit b 3) 0) := by
  have hlen' : is.length = 3 * period p.tenMbit + armTick p := by
    have hperiod := period_eq p
    omega
  obtain ⟨front, back, rfl, hfront, hback⟩ := splitAt_length hlen'
  have hthree : TxTriple p (ByteAt p (b, false)) front _
      (At .data 0 7 0 false (b, false) (dibit b 3) (armTick p)) :=
    tx_threeDibits hfront fun i hi => hon i (List.mem_append_left _ hi)
  rw [silent_append]
  exact hthree.append
    (tx_hold (by decide) hback fun i hi => hon i (List.mem_append_right _ hi))

/-- The clocks of the gap. -/
theorem tx_gap {g : Nat} {is : List Pins} (hlen : is.length = g + 1)
    (hon : ∀ i ∈ is, i.rstN = true) :
    TxTriple p (Gap g) is (silent (List.replicate (g + 1) (false, 0))) Resting := by
  have hshows : ∀ {g t i}, Gap g t → shows p t i = [((false, 0), [])] := by
    intro g t i ht
    simp [shows, sFrameTready, idleReady, ht.state, ht.txen, ht.txd]
  induction g generalizing is with
  | zero =>
    obtain ⟨i, rfl⟩ := List.length_eq_one_iff.mp hlen
    exact Triple.one fun t ht => ⟨gap_end (hon i List.mem_cons_self) ht, hshows ht⟩
  | succ g ih =>
    obtain ⟨i, is, rfl⟩ := List.exists_cons_of_length_pos (by omega : 0 < is.length)
    rw [List.length_cons, Nat.succ_inj] at hlen
    refine Triple.append (Triple.one fun t ht => ⟨?_, hshows ht⟩ : TxTriple p _ [i] _ _)
      (ih hlen fun j hj => hon j (List.mem_cons_of_mem _ hj))
    exact gap_step (hon i List.mem_cons_self) ht.state ht.ifg ht.tick

/-- **The last byte of a frame, and the gap behind it.** -/
theorem tx_lastByte {b : Byte} {is : List Pins}
    (hlen : is.length = 4 * period p.tenMbit + ifgCountInit p) (hon : ∀ i ∈ is, i.rstN = true) :
    TxTriple p (ByteAt p (b, true)) is
      (silent (wave p.tenMbit [dibit b 0, dibit b 1, dibit b 2, dibit b 3] ++
        List.replicate (ifgCountInit p) (false, 0))) Resting := by
  obtain ⟨g, hg⟩ : ∃ g, ifgCountInit p = g + 1 := by
    unfold ifgCountInit
    split
    · exact ⟨478, rfl⟩
    · exact ⟨46, rfl⟩
  have hlen' : is.length = 3 * period p.tenMbit + (period p.tenMbit + (g + 1)) := by omega
  obtain ⟨is₀, rest, rfl, hlen₀, hrest⟩ := splitAt_length hlen'
  obtain ⟨is₁, is₂, rfl, hlen₁, hlen₂⟩ := splitAt_length hrest
  have hsplit : (silent (wave p.tenMbit [dibit b 0, dibit b 1, dibit b 2, dibit b 3] ++
      List.replicate (ifgCountInit p) (false, 0)) : List Shown) =
      silent (wave p.tenMbit [dibit b 0, dibit b 1, dibit b 2]) ++
        (silent (wave p.tenMbit [dibit b 3]) ++ silent (List.replicate (g + 1) (false, 0))) := by
    rw [← silent_append, ← silent_append, hg]
    simp [wave]
  have hthree : TxTriple p (ByteAt p (b, true)) is₀ _
      (At .ifg 0 7 (ifgCountInit p) false (b, true) (dibit b 3) (armTick p)) :=
    tx_threeDibits hlen₀ fun i hi => hon i (by simp [hi])
  have hfourth : TxTriple p (At .ifg 0 7 (ifgCountInit p) false (b, true) (dibit b 3) (armTick p))
      is₁ (silent (wave p.tenMbit [dibit b 3])) (Gap g) :=
    tx_dibit (by decide) hlen₁ (fun i hi => hon i (by simp [hi])) nofun
      fun t i ht hi => gap_step hi ht.state (ht.ifg.trans hg) ht.tick
  rw [hsplit]
  exact hthree.append (hfourth.append (tx_gap hlen₂ fun i hi => hon i (by simp [hi])))

end Pieces

end FpgaHashJoin.RmiiTxBytes
