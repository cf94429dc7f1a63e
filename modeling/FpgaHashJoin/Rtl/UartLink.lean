import FpgaHashJoin.Rtl.UartStreamBridge

/-!
# A line between two UART bridges

The transmitter of one bridge drives the receiver of another one with the same bit period.
The transmitter's side of a transfer does not depend on the receiver, so the two are treated
one after the other.

* `tx_frame`: once a byte has been taken, the line carries its frame for ten bit periods,
  whatever the inputs are, and no other byte is taken;
* `rx_frame`: a waiting receiver that sees the frame of a byte passes on this byte and waits
  again. It samples at the same offset of every bit period, so the frame is regrouped at
  these offsets (`flatMap_replicate_eq`);
* `stages_sound`: the two together, as segments of a serial link; `heard_isPrefix` and
  `taken_isPrefix` follow for whole runs: the receiver passes on what was taken, with a delay of
  at most ten bit periods;
* `uart_round_trip`: the same between the two streams, with the synchroniser and the output
  stage.
-/

namespace FpgaHashJoin.UartStreamBridge

open Clocked

/-! ## Bit periods -/

section Periods

variable {cpb : Nat}

theorem load16_eq {n : Nat} (hpos : 0 < n) (hle : n ≤ 65536) : load16 n = n - 1 := by
  unfold load16
  omega

/-- The samples between two sampling points: the end of one bit and the beginning of the
next. -/
def chunk (cpb : Nat) (prev x : Bool) : List Bool :=
  List.replicate (cpb - (cpb / 2 + 1)) prev ++ List.replicate (cpb / 2 + 1) x

def chunks (cpb : Nat) : Bool → List Bool → List Bool
  | prev, [] => List.replicate (cpb - (cpb / 2 + 1)) prev
  | prev, x :: xs => chunk cpb prev x ++ chunks cpb x xs

theorem replicate_split (hlo : 2 ≤ cpb) (x : Bool) : List.replicate cpb x =
    List.replicate (cpb / 2 + 1) x ++ List.replicate (cpb - (cpb / 2 + 1)) x := by
  rw [List.replicate_append_replicate]
  congr 1
  omega

/-- The bits of a frame, regrouped at the sampling points. -/
theorem flatMap_replicate_eq (hlo : 2 ≤ cpb) (x : Bool) (xs : List Bool) :
    (x :: xs).flatMap (List.replicate cpb) =
      List.replicate (cpb / 2 + 1) x ++ chunks cpb x xs := by
  induction xs generalizing x with
  | nil => simpa [chunks] using replicate_split hlo x
  | cons y ys ih =>
    rw [List.flatMap_cons, ih y, replicate_split hlo x, chunks, chunk]
    simp only [List.append_assoc]

/-- A chunk ends with the sample that counts. -/
theorem chunk_eq (hlo : 2 ≤ cpb) (prev x : Bool) :
    ∃ ys, ys.length = cpb - 1 ∧ chunk cpb prev x = ys ++ [x] := by
  refine ⟨List.replicate (cpb - (cpb / 2 + 1)) prev ++ List.replicate (cpb / 2) x, ?_, ?_⟩
  · simp only [List.length_append, List.length_replicate]
    omega
  · rw [chunk, List.replicate_succ', List.append_assoc]

end Periods

/-! ## The receiver -/

/-- The byte that the receiver completes with a sample. -/
def Rx.completes (cpb : Nat) (r : Rx) (s2 : Bool) : List Byte :=
  if (r.step cpb s2).rdone then [(r.step cpb s2).rbyte] else []

abbrev RxTriple (cpb : Nat) (P : Rx → Prop) (samples : List Bool) (bytes : List Byte)
    (Q : Rx → Prop) : Prop :=
  Triple (Rx.step cpb) (Rx.completes cpb) P samples bytes Q

def Rx.Waiting (r : Rx) : Prop := r.rs = .idle

/-- The receiver counts in the given state, with the given shift register. -/
def Rx.At (st : St) (k : Nat) (sh : Byte) (c : Nat) (r : Rx) : Prop :=
  r.rs = st ∧ r.rb = k ∧ r.rsh = sh ∧ r.rc = c

section Receiver

variable {cpb : Nat} {st : St} {k c : Nat} {sh : Byte}

theorem rx_quiet (n : Nat) : RxTriple cpb Rx.Waiting (List.replicate n true) [] Rx.Waiting := by
  induction n with
  | zero => exact Triple.nil _
  | succ n ih =>
    refine Triple.append (Triple.one fun r hr => ?_ : RxTriple cpb _ [true] [] _) ih
    simp only [Rx.Waiting] at hr
    simp [Rx.completes, Rx.step, Rx.Waiting, hr]

/-- Samples are ignored while the counter runs. -/
theorem rx_counts (hst : st ≠ .idle) {xs : List Bool} (hlen : xs.length ≤ c) :
    RxTriple cpb (Rx.At st k sh c) xs [] (Rx.At st k sh (c - xs.length)) := by
  induction xs generalizing c with
  | nil => exact Triple.nil _
  | cons x xs ih =>
    rw [List.length_cons] at hlen ⊢
    have hc : c - (xs.length + 1) = c - 1 - xs.length := by omega
    rw [hc]
    refine Triple.append (Triple.one fun r hr => ?_ : RxTriple cpb _ [x] [] _) (ih (by omega))
    obtain ⟨hrs, hrb, hrsh, hrc⟩ := hr
    have hne : ¬ c = 0 := by omega
    cases st with
    | idle => exact absurd rfl hst
    | start => simp [Rx.completes, Rx.step, Rx.At, hrs, hrb, hrsh, hrc, hne]
    | data => simp [Rx.completes, Rx.step, Rx.At, hrs, hrb, hrsh, hrc, hne]
    | stop => simp [Rx.completes, Rx.step, Rx.At, hrs, hrb, hrsh, hrc, hne]

/-- Ignored samples and the sample that counts. -/
theorem rx_sample {x : Bool} {xs : List Bool} {bytes : List Byte} {Q : Rx → Prop}
    (hst : st ≠ .idle) (hlen : xs.length = c)
    (h : ∀ r, Rx.At st k sh 0 r → Q (r.step cpb x) ∧ r.completes cpb x = bytes) :
    RxTriple cpb (Rx.At st k sh c) (xs ++ [x]) bytes Q := by
  rw [← List.nil_append bytes]
  refine (rx_counts hst hlen.le).append (Triple.one fun r hr => h r ?_)
  rw [hlen, Nat.sub_self] at hr
  exact hr

variable (hlo : 2 ≤ cpb) (hhi : cpb ≤ 65536)

include hlo hhi in
/-- The start bit up to its middle. -/
theorem rx_start : RxTriple cpb Rx.Waiting (List.replicate (cpb / 2 + 1) false) []
    (fun r => ∃ sh, Rx.At .data 0 sh (cpb - 1) r) := by
  have hhalf : load16 (cpb / 2) = cpb / 2 - 1 := load16_eq (by omega) (by omega)
  have hload : load16 cpb = cpb - 1 := load16_eq (by omega) hhi
  have hlist : List.replicate (cpb / 2 + 1) false =
      [false] ++ (List.replicate (cpb / 2 - 1) false ++ [false]) := by
    have hone : cpb / 2 - 1 + 1 = cpb / 2 := by omega
    rw [← List.replicate_succ', hone, List.singleton_append, ← List.replicate_succ]
  rw [hlist]
  intro r hr
  have hdetect : Rx.At .start r.rb r.rsh (cpb / 2 - 1) (r.step cpb false) ∧
      r.completes cpb false = [] := by
    simp only [Rx.Waiting] at hr
    simp [Rx.completes, Rx.step, Rx.At, hr, hhalf]
  have hmiddle : RxTriple cpb (Rx.At .start r.rb r.rsh (cpb / 2 - 1))
      (List.replicate (cpb / 2 - 1) false ++ [false]) [] (Rx.At .data 0 r.rsh (cpb - 1)) := by
    refine rx_sample (by decide) (by simp) fun r hr => ?_
    obtain ⟨hrs, -, hrsh, hrc⟩ := hr
    simp [Rx.completes, Rx.step, Rx.At, hrs, hrsh, hrc, hload]
  obtain ⟨hdata, htrace⟩ := hmiddle _ hdetect.1
  rw [run_append, trace_append, run_cons, run_nil, trace_cons, hdetect.2, htrace]
  exact ⟨⟨r.rsh, hdata⟩, rfl⟩

include hlo hhi in
/-- One data bit. -/
theorem rx_bit (prev x : Bool) (hk : k < 7) :
    RxTriple cpb (Rx.At .data k sh (cpb - 1)) (chunk cpb prev x) []
      (Rx.At .data (k + 1) (shiftIn x sh) (cpb - 1)) := by
  have hload : load16 cpb = cpb - 1 := load16_eq (by omega) hhi
  obtain ⟨ys, hlen, hys⟩ := chunk_eq hlo prev x
  rw [hys]
  refine rx_sample (by decide) hlen fun r hr => ?_
  obtain ⟨hrs, hrb, hrsh, hrc⟩ := hr
  have hne : ¬ k = 7 := by omega
  simp [Rx.completes, Rx.step, Rx.At, hrs, hrb, hrsh, hrc, hload, hne]

include hlo hhi in
theorem rx_lastBit (prev x : Bool) :
    RxTriple cpb (Rx.At .data 7 sh (cpb - 1)) (chunk cpb prev x) []
      (Rx.At .stop 7 (shiftIn x sh) (cpb - 1)) := by
  have hload : load16 cpb = cpb - 1 := load16_eq (by omega) hhi
  obtain ⟨ys, hlen, hys⟩ := chunk_eq hlo prev x
  rw [hys]
  refine rx_sample (by decide) hlen fun r hr => ?_
  obtain ⟨hrs, hrb, hrsh, hrc⟩ := hr
  simp [Rx.completes, Rx.step, Rx.At, hrs, hrb, hrsh, hrc, hload]

include hlo in
theorem rx_stop (prev : Bool) :
    RxTriple cpb (Rx.At .stop k sh (cpb - 1)) (chunk cpb prev true) [sh] Rx.Waiting := by
  obtain ⟨ys, hlen, hys⟩ := chunk_eq hlo prev true
  rw [hys]
  refine rx_sample (by decide) hlen fun r hr => ?_
  obtain ⟨hrs, hrb, hrsh, hrc⟩ := hr
  simp [Rx.completes, Rx.step, Rx.Waiting, hrs, hrsh, hrc]

include hlo hhi in
/-- The remaining data bits and the stop bit. -/
theorem rx_bits (prev : Bool) (xs : List Bool) (hxs : xs ≠ []) (hk : k + xs.length = 8) :
    RxTriple cpb (Rx.At .data k sh (cpb - 1)) (chunks cpb prev (xs ++ [true]))
      [xs.foldl (fun sh x => shiftIn x sh) sh] Rx.Waiting := by
  induction xs generalizing prev k sh with
  | nil => exact absurd rfl hxs
  | cons x xs ih =>
    rw [List.length_cons] at hk
    rw [List.cons_append, chunks, List.foldl_cons]
    by_cases hlast : xs = []
    · subst hlast
      obtain rfl : k = 7 := by simpa using hk
      have hend : RxTriple cpb (Rx.At .stop 7 (shiftIn x sh) (cpb - 1))
          (chunks cpb x ([] ++ [true])) [shiftIn x sh] Rx.Waiting := by
        exact (rx_stop hlo x : RxTriple cpb _ (chunk cpb x true) [shiftIn x sh] _).append
          (rx_quiet (cpb - (cpb / 2 + 1)))
      exact (rx_lastBit hlo hhi prev x).append hend
    · have hlen : 0 < xs.length := List.length_pos_iff.mpr hlast
      exact (rx_bit hlo hhi prev x (by omega)).append (ih x hlast (by omega))

theorem shiftIn_getLsbD (x : Bool) (sh : Byte) {i : Nat} (hi : i < 8) :
    (shiftIn x sh).getLsbD i = if i = 7 then x else sh.getLsbD (i + 1) := by
  rw [shiftIn, BitVec.getLsbD_cons]
  split
  · rfl
  · rw [BitVec.getLsbD_extractLsb', Nat.add_comm 1 i]
    have hlt : i < 7 := by omega
    simp [hlt]

/-- Eight bits from the left fill the register. -/
theorem foldl_shiftIn (b sh : Byte) :
    (dataBits b).foldl (fun sh x => shiftIn x sh) sh = b := by
  apply BitVec.eq_of_getLsbD_eq
  intro i hi
  have hbits : dataBits b = [b.getLsbD 0, b.getLsbD 1, b.getLsbD 2, b.getLsbD 3, b.getLsbD 4,
    b.getLsbD 5, b.getLsbD 6, b.getLsbD 7] := rfl
  rw [hbits]
  interval_cases i <;>
    simp (disch := decide) only [List.foldl_cons, List.foldl_nil, shiftIn_getLsbD, Nat.reduceAdd,
      Nat.reduceEqDiff, if_true, if_false]

include hlo hhi in
/-- **A receiver that sees the frame of a byte passes on the byte.** -/
theorem rx_frame (b : Byte) : RxTriple cpb Rx.Waiting (frame cpb b) [b] Rx.Waiting := by
  rw [frame, flatMap_replicate_eq hlo]
  rw [← List.nil_append [b]]
  refine (rx_start hlo hhi).append ?_
  rintro r ⟨sh, hr⟩
  have h := rx_bits hlo hhi false (dataBits b) (by simp [dataBits]) (by simp [dataBits]) r hr
  rw [foldl_shiftIn] at h
  exact h

end Receiver

/-! ## The transmitter -/

/-- The stream inputs of the transmitter in a cycle: `s_axis_tvalid` and `s_axis_tdata`. -/
abbrev TxIn := Bool × Byte

def Tx.cycle (cpb : Nat) (t : Tx) (i : TxIn) : Tx := t.step cpb i.1 i.2

/-- The value on the line and the byte that is taken in a cycle. -/
def Tx.shows (t : Tx) (i : TxIn) : List (Bool × List Byte) :=
  [(t.tpin, if t.sAxisTready && i.1 then [i.2] else [])]

abbrev TxTriple (cpb : Nat) (P : Tx → Prop) (is : List TxIn) (outs : List (Bool × List Byte))
    (Q : Tx → Prop) : Prop :=
  Triple (Tx.cycle cpb) Tx.shows P is outs Q

def Tx.Resting (t : Tx) : Prop := t.ts = .idle ∧ t.tpin = true

/-- The transmitter counts in the given state, with the given shift register and line. -/
def Tx.At (st : St) (k : Nat) (sh : Byte) (pin : Bool) (c : Nat) (t : Tx) : Prop :=
  t.ts = st ∧ (st = .data → t.tb = k) ∧ t.tsh = sh ∧ t.tpin = pin ∧ t.tc = c

section Transmitter

variable {cpb : Nat} {st : St} {k c : Nat} {sh : Byte} {pin : Bool}

theorem tx_counts (hst : st ≠ .idle) {is : List TxIn} (hlen : is.length ≤ c) :
    TxTriple cpb (Tx.At st k sh pin c) is (List.replicate is.length (pin, []))
      (Tx.At st k sh pin (c - is.length)) := by
  induction is generalizing c with
  | nil => exact Triple.nil _
  | cons i is ih =>
    rw [List.length_cons] at hlen ⊢
    have hc : c - (is.length + 1) = c - 1 - is.length := by omega
    rw [hc]
    refine Triple.append (Triple.one fun t ht => ?_ : TxTriple cpb _ [i] [(pin, [])] _)
      (ih (by omega))
    obtain ⟨hts, htb, htsh, htpin, htc⟩ := ht
    have hne : ¬ c = 0 := by omega
    cases st with
    | idle => exact absurd rfl hst
    | start => simp [Tx.shows, Tx.sAxisTready, Tx.cycle, Tx.step, Tx.At, hts, htsh, htpin, htc, hne]
    | data =>
      simp [Tx.shows, Tx.sAxisTready, Tx.cycle, Tx.step, Tx.At, hts, htb, htsh, htpin, htc, hne]
    | stop => simp [Tx.shows, Tx.sAxisTready, Tx.cycle, Tx.step, Tx.At, hts, htsh, htpin, htc, hne]

/-- A whole bit period: the line keeps its value, and the last cycle moves on. -/
theorem tx_period {is : List TxIn} {Q : Tx → Prop} (hst : st ≠ .idle) (hpos : 0 < cpb)
    (hlen : is.length = cpb) (h : ∀ t i, Tx.At st k sh pin 0 t → Q (t.cycle cpb i)) :
    TxTriple cpb (Tx.At st k sh pin (cpb - 1)) is (List.replicate cpb (pin, [])) Q := by
  obtain ⟨is, i, rfl⟩ : ∃ front i, is = front ++ [i] := by
    have hne : is ≠ [] := List.ne_nil_of_length_pos (by omega)
    exact ⟨is.dropLast, is.getLast hne, (List.dropLast_append_getLast hne).symm⟩
  rw [List.length_append, List.length_singleton] at hlen
  have hrep : List.replicate cpb (pin, ([] : List Byte)) =
      List.replicate is.length (pin, []) ++ [(pin, [])] := by
    rw [← List.replicate_succ', hlen]
  rw [hrep]
  refine (tx_counts hst (by omega)).append (Triple.one fun t ht => ?_)
  have hzero : cpb - 1 - is.length = 0 := by omega
  rw [hzero] at ht
  refine ⟨h t i ht, ?_⟩
  obtain ⟨hts, -, -, htpin, -⟩ := ht
  have hready : t.sAxisTready = false := by simp [Tx.sAxisTready, hts, hst]
  simp [Tx.shows, htpin, hready]

theorem silent_replicate (n : Nat) (x : Bool) :
    silent (List.replicate n x) = List.replicate n (x, ([] : List Byte)) :=
  List.map_replicate

variable (hlo : 2 ≤ cpb) (hhi : cpb ≤ 65536)

include hlo hhi in
theorem tx_start (b : Byte) {is : List TxIn} (hlen : is.length = cpb) :
    TxTriple cpb (Tx.At .start k b false (cpb - 1)) is (silent (List.replicate cpb false))
      (Tx.At .data 0 (b >>> 1) (b.getLsbD 0) (cpb - 1)) := by
  have hload : load16 cpb = cpb - 1 := load16_eq (by omega) hhi
  rw [silent_replicate]
  refine tx_period (by decide) (by omega) hlen fun t i ht => ?_
  obtain ⟨hts, -, htsh, htpin, htc⟩ := ht
  simp [Tx.cycle, Tx.step, Tx.At, hts, htsh, htc, hload]

include hlo hhi in
theorem tx_bit (b : Byte) (hk : k < 7) {is : List TxIn} (hlen : is.length = cpb) :
    TxTriple cpb (Tx.At .data k (b >>> (k + 1)) (b.getLsbD k) (cpb - 1)) is
      (silent (List.replicate cpb (b.getLsbD k)))
      (Tx.At .data (k + 1) (b >>> (k + 1 + 1)) (b.getLsbD (k + 1)) (cpb - 1)) := by
  have hload : load16 cpb = cpb - 1 := load16_eq (by omega) hhi
  have hshift : b >>> (k + 1) >>> 1 = b >>> (k + 1 + 1) := (BitVec.shiftRight_add b (k + 1) 1).symm
  have hbit : (b >>> (k + 1)).getLsbD 0 = b.getLsbD (k + 1) := by
    rw [BitVec.getLsbD_ushiftRight, Nat.add_zero]
  rw [silent_replicate]
  refine tx_period (by decide) (by omega) hlen fun t i ht => ?_
  obtain ⟨hts, htb, htsh, htpin, htc⟩ := ht
  have htb := htb rfl
  have hne : ¬ k = 7 := by omega
  refine ⟨?_, ?_, ?_, ?_, ?_⟩
  · simp [Tx.cycle, Tx.step, hts, htb, htc, hne]
  · simp [Tx.cycle, Tx.step, hts, htb, htc, hne]
  · rw [← hshift, ← htsh]
    simp [Tx.cycle, Tx.step, hts, htb, htc, hne]
  · rw [← hbit, ← htsh]
    simp [Tx.cycle, Tx.step, hts, htb, htc, hne]
  · simp [Tx.cycle, Tx.step, hts, htb, htc, hne, hload]

include hlo hhi in
theorem tx_lastBit {is : List TxIn} (hlen : is.length = cpb) :
    TxTriple cpb (Tx.At .data 7 sh pin (cpb - 1)) is (silent (List.replicate cpb pin))
      (Tx.At .stop 7 sh true (cpb - 1)) := by
  have hload : load16 cpb = cpb - 1 := load16_eq (by omega) hhi
  rw [silent_replicate]
  refine tx_period (by decide) (by omega) hlen fun t i ht => ?_
  obtain ⟨hts, htb, htsh, htpin, htc⟩ := ht
  simp [Tx.cycle, Tx.step, Tx.At, hts, htb, htsh, htc, hload]

include hlo in
theorem tx_stop {is : List TxIn} (hlen : is.length = cpb) :
    TxTriple cpb (Tx.At .stop k sh true (cpb - 1)) is (silent (List.replicate cpb true))
      Tx.Resting := by
  rw [silent_replicate]
  refine tx_period (by decide) (by omega) hlen fun t i ht => ?_
  obtain ⟨hts, -, htsh, htpin, htc⟩ := ht
  simp [Tx.cycle, Tx.step, Tx.Resting, hts, htpin, htc]

include hlo hhi in
/-- The data bits from bit `k` on. -/
theorem tx_bits (b : Byte) {n : Nat} (hk : k + n = 7) {is : List TxIn}
    (hlen : is.length = (n + 1) * cpb) :
    TxTriple cpb (Tx.At .data k (b >>> (k + 1)) (b.getLsbD k) (cpb - 1)) is
      (silent (((List.range' k (n + 1)).map b.getLsbD).flatMap (List.replicate cpb)))
      (Tx.At .stop 7 (b >>> 8) true (cpb - 1)) := by
  induction n generalizing k is with
  | zero =>
    obtain rfl : k = 7 := by omega
    have hlast : TxTriple cpb (Tx.At .data 7 (b >>> 8) (b.getLsbD 7) (cpb - 1)) is _ _ :=
      tx_lastBit hlo hhi (by simpa using hlen)
    simpa using hlast
  | succ n ih =>
    rw [← List.take_append_drop cpb is, List.range'_succ, List.map_cons, List.flatMap_cons,
      silent_append]
    rw [Nat.add_mul, Nat.one_mul] at hlen
    refine (tx_bit hlo hhi b (by omega) ?_).append (ih (by omega) ?_)
    · rw [List.length_take]
      omega
    · rw [List.length_drop]
      omega

include hlo hhi in
/-- **The line carries the frame of the byte, whatever the inputs are.** -/
theorem tx_frame (b : Byte) {is : List TxIn} (hlen : is.length = 10 * cpb) :
    TxTriple cpb (Tx.At .start k b false (cpb - 1)) is (silent (frame cpb b)) Tx.Resting := by
  have hframe : frame cpb b = List.replicate cpb false ++
      ((((List.range' 0 8).map b.getLsbD).flatMap (List.replicate cpb)) ++
        List.replicate cpb true) := by
    rw [frame, List.flatMap_cons, List.flatMap_append, dataBits, List.range_eq_range']
    simp
  rw [hframe, silent_append, silent_append, ← List.take_append_drop cpb is,
    ← List.take_append_drop (8 * cpb) (is.drop cpb)]
  refine (tx_start hlo hhi b ?_).append ((tx_bits hlo hhi b (n := 7) rfl ?_).append
    (tx_stop hlo ?_))
  · rw [List.length_take]
    omega
  · rw [List.length_take, List.length_drop]
    omega
  · rw [List.length_drop, List.length_drop]
    omega

end Transmitter

/-! ## Transfers -/

/-- The transmitter of one bridge on the line to the receiver of another one. -/
abbrev serial (cpb : Nat) : SerialLink Tx Rx TxIn Bool Byte Byte where
  step := Tx.cycle cpb
  shows := Tx.shows
  hear := Rx.step cpb
  reports := Rx.completes cpb

/-- A segment is a cycle of rest or the frame of a byte. -/
inductive Stage where
  | rest
  | sending (b : Byte)

namespace Stage

def In (cpb : Nat) : Stage → Tx → Rx → Prop
  | rest, t, r => t.Resting ∧ r.Waiting
  | sending b, t, r => Tx.At .start 0 b false (cpb - 1) t ∧ r.Waiting

def len (cpb : Nat) : Stage → Nat
  | rest => 1
  | sending _ => 10 * cpb

def events : Stage → List Byte
  | rest => []
  | sending b => [b]

def owed : Stage → List Byte → List Byte
  | rest, xs => xs
  | sending b, xs => b :: xs

end Stage

abbrev stages (cpb : Nat) : (serial cpb).Stages Stage where
  In := Stage.In cpb
  len := Stage.len cpb
  events := Stage.events
  owed := Stage.owed

section Transfers

variable {cpb : Nat} {t : Tx} {r : Rx}

theorem length_line (cpb : Nat) (t : Tx) (is : List TxIn) :
    ((serial cpb).line t is).length = is.length := by
  induction is generalizing t with
  | nil => rfl
  | cons i is ih =>
    rw [← List.singleton_append, SerialLink.line_append, List.length_append, List.length_append, ih]
    rfl

/-- A cycle in which nothing is offered to a resting transmitter. -/
theorem Tx.Resting.quiet (cpb : Nat) (ht : t.Resting) {i : TxIn} (hi : i.1 = false) :
    (t.cycle cpb i).Resting ∧ (serial cpb).line t [i] = [true] ∧ (serial cpb).taken t [i] = [] := by
  obtain ⟨hts, htpin⟩ := ht
  simp [Tx.cycle, Tx.step, Tx.Resting, SerialLink.line, SerialLink.taken, Tx.shows, hts, htpin, hi]

variable (hlo : 2 ≤ cpb) (hhi : cpb ≤ 65536)

include hlo hhi in
/-- A resting transmitter takes the byte. -/
theorem Tx.Resting.takes (ht : t.Resting) {i : TxIn} (hi : i.1 = true) :
    Tx.At .start 0 i.2 false (cpb - 1) (t.cycle cpb i) ∧
      (serial cpb).line t [i] = [true] ∧ (serial cpb).taken t [i] = [i.2] := by
  have hload : load16 cpb = cpb - 1 := load16_eq (by omega) hhi
  obtain ⟨hts, htpin⟩ := ht
  simp [Tx.cycle, Tx.step, Tx.At, SerialLink.line, SerialLink.taken, Tx.shows, Tx.sAxisTready, hts,
    htpin, hi, hload]

include hlo hhi in
/-- An idle line is not heard. -/
theorem segment_rest (ht : t.Resting) (hr : r.Waiting) (i : TxIn) :
    ∃ ph, SerialLink.Segment (stages cpb) .rest t r [i] ph := by
  obtain ⟨hr', hnone⟩ := (rx_quiet 1 : RxTriple cpb _ _ _ _) r hr
  by_cases hi : i.1 = true
  · obtain ⟨ht', hline, htaken⟩ := ht.takes hlo hhi hi
    refine ⟨.sending i.2, ⟨ht', ?_⟩, ?_, fun xs => ?_, rfl⟩
    · rw [hline]
      exact hr'
    · rw [hline]
      exact hnone
    · rw [htaken]
      rfl
  · obtain ⟨ht', hline, htaken⟩ := ht.quiet cpb (by simpa using hi)
    refine ⟨.rest, ⟨ht', ?_⟩, ?_, fun xs => ?_, rfl⟩
    · rw [hline]
      exact hr'
    · rw [hline]
      exact hnone
    · rw [htaken]
      rfl

include hlo hhi in
/-- The frame of a byte is heard as the byte, and nothing is taken meanwhile. -/
theorem segment_sending {b : Byte} (ht : Tx.At .start 0 b false (cpb - 1) t) (hr : r.Waiting)
    {is : List TxIn} (hlen : is.length = 10 * cpb) :
    SerialLink.Segment (stages cpb) (.sending b) t r is .rest := by
  obtain ⟨ht', hline, htaken⟩ :=
    SerialLink.line_silent (L := serial cpb) (tx_frame hlo hhi b hlen) ht
  obtain ⟨hr', hheard⟩ := rx_frame hlo hhi b r hr
  refine ⟨⟨ht', ?_⟩, ?_, fun xs => ?_, ?_⟩
  · rw [hline]
    exact hr'
  · rw [hline]
    exact hheard
  · rw [htaken]
    rfl
  · exact SerialLink.taken_of_isPrefix (List.dropLast_prefix is) htaken

include hlo hhi in
theorem stages_sound : (stages cpb).Sound fun _ _ => True where
  len_pos ph := by
    cases ph with
    | rest => exact Nat.one_pos
    | sending b => exact Nat.mul_pos (by decide) (by omega)
  events_isPrefix ph xs := by
    cases ph with
    | rest => exact List.nil_prefix
    | sending b => exact ⟨xs, rfl⟩
  fed_left _ := trivial
  fed_right _ := trivial
  padding {_ is n} _ hlen := by
    refine ⟨List.replicate (n - is.length) (false, 0), ?_, trivial⟩
    rw [List.length_append, List.length_replicate]
    omega
  segment {ph t r is} hin _ hlen := by
    cases ph with
    | rest =>
      obtain ⟨i, rfl⟩ := List.length_eq_one_iff.mp hlen
      exact segment_rest hlo hhi hin.1 hin.2 i
    | sending b => exact ⟨_, segment_sending hlo hhi hin.1 hin.2 hlen⟩

include hlo hhi in
/-- **Only bytes that were taken are heard**, in order. -/
theorem heard_isPrefix (is : List TxIn) (ht : t.Resting) (hr : r.Waiting) :
    (serial cpb).heard r ((serial cpb).line t is) <+: (serial cpb).taken t is := by
  have hin : (stages cpb).In .rest t r := ⟨ht, hr⟩
  exact (stages_sound hlo hhi).heard_isPrefix hin trivial

include hlo hhi in
/-- **Every byte that was taken is heard** after ten bit periods. -/
theorem taken_isPrefix (is js : List TxIn) (hjs : 10 * cpb ≤ js.length) (ht : t.Resting)
    (hr : r.Waiting) :
    (serial cpb).taken t is <+: (serial cpb).heard r ((serial cpb).line t (is ++ js)) := by
  have hrest : (stages cpb).In .rest t r := ⟨ht, hr⟩
  refine (stages_sound hlo hhi).owed_isPrefix ?_ hrest trivial hjs
  intro ph t r is hin _ hlen
  cases ph with
  | rest => exact List.nil_prefix
  | sending b =>
    obtain ⟨a, c, rfl, ha⟩ := SerialLink.exists_start hlen
    rw [(segment_sending hlo hhi hin.1 hin.2 ha).heard_append]
    exact List.prefix_append _ _

end Transfers

/-! ## Two bridges -/

/-- One cycle of two bridges; the first one drives the line of the second one. -/
def linkStep (cpb : Nat) (s : Regs × Regs) (i : Pins × Pins) : Regs × Regs :=
  (step cpb s.1 i.1, step cpb s.2 { i.2 with uartRx := uartTx s.1 })

/-- The byte that the first bridge takes. -/
def linkAcceptedS (s : Regs × Regs) (i : Pins × Pins) : List Byte := acceptedS s.1 i.1

/-- The byte that the second bridge hands over. -/
def linkAcceptedM (s : Regs × Regs) (i : Pins × Pins) : List Byte := acceptedM s.2 i.2

/-- The consumer takes a byte at the latest when the next one is complete. -/
def Timely (s : Regs) (i : Pins) : Prop :=
  s.rx.rdone = true → s.out.mAxisTvalid = true → i.mAxisTready = true

/-- Both bridges rest, and the line is high up to the receiver. -/
structure LinkReady (s : Regs × Regs) : Prop where
  tx : s.1.tx.Resting
  s1 : s.2.rxS1 = true
  s2 : s.2.rxS2 = true
  rx : s.2.rx = .reset
  out : s.2.out = .reset

theorem lastThree {α : Type} {l : List α} (h : 3 ≤ l.length) :
    ∃ front i j k, l = front ++ [i, j, k] := by
  obtain ⟨i, j, k, hlast⟩ : ∃ i j k, l.drop (l.length - 3) = [i, j, k] :=
    List.length_eq_three.mp (by rw [List.length_drop]; omega)
  exact ⟨_, i, j, k, by rw [← hlast, List.take_append_drop]⟩

/-- Three cycles of reset, whatever the registers hold. -/
theorem linkReady_of_resets {cpb : Nat} {s₀ : Regs × Regs} {resets : List (Pins × Pins)}
    (hlen : 3 ≤ resets.length) (hoff : ∀ i ∈ resets, i.1.rstN = false ∧ i.2.rstN = false) :
    LinkReady (run (linkStep cpb) s₀ resets) := by
  obtain ⟨front, i, j, k, rfl⟩ := lastThree hlen
  obtain ⟨hi₁, hi₂⟩ := hoff i (by simp)
  obtain ⟨hj₁, hj₂⟩ := hoff j (by simp)
  obtain ⟨hk₁, hk₂⟩ := hoff k (by simp)
  rw [run_append]
  constructor <;>
    simp [linkStep, step, uartTx, Tx.reset, Tx.Resting, hi₁, hj₁, hk₁, hk₂]

section Link

variable {cpb : Nat} {s : Regs × Regs}

/-- The stream inputs of the transmitter. -/
def txIns (is : List (Pins × Pins)) : List TxIn :=
  is.map fun i => (i.1.sAxisTvalid, i.1.sAxisTdata)

/-- What a timely consumer takes and what is offered then is what was offered or arrives. -/
theorem Timely.handshake (cpb : Nat) {r : Regs} {i : Pins} (hon : i.rstN = true) (h : Timely r i) :
    acceptedM r i ++ (step cpb r i).out.offered = r.out.offered ++ received r i := by
  rw [step_out hon, Out.step]
  unfold acceptedM received Out.offered
  unfold Timely at h
  by_cases hvalid : r.out.mAxisTvalid = true
  · by_cases hready : i.mAxisTready = true
    · simp [hvalid, hready]
    · have hdone : ¬ r.rx.rdone = true := fun hdone => hready (h hdone hvalid)
      simp [hvalid, hready, hdone]
  · by_cases hdone : r.rx.rdone = true
    · simp [hvalid, hdone]
    · simp [hvalid, hdone]

/-- The state of the link after some cycles: the receiver has consumed all values of the line
but the last two, and what it has heard is handed over, on offer, or about to be. -/
structure LinkInv (cpb : Nat) (s : Regs × Regs) (is : List (Pins × Pins)) : Prop where
  tx : (run (linkStep cpb) s is).1.tx = run (Tx.cycle cpb) s.1.tx (txIns is)
  taken_eq : trace (linkStep cpb) linkAcceptedS s is = (serial cpb).taken s.1.tx (txIns is)
  rx : ∃ samples, true :: true :: (serial cpb).line s.1.tx (txIns is) =
      samples ++ [(run (linkStep cpb) s is).2.rxS2, (run (linkStep cpb) s is).2.rxS1] ∧
    (run (linkStep cpb) s is).2.rx = run (Rx.step cpb) s.2.rx samples ∧
    (serial cpb).heard s.2.rx samples = trace (linkStep cpb) linkAcceptedM s is ++
      (run (linkStep cpb) s is).2.out.offered ++
      if (run (linkStep cpb) s is).2.rx.rdone then [(run (linkStep cpb) s is).2.rx.rbyte] else []

theorem linkInv_nil (h : LinkReady s) : LinkInv cpb s [] := by
  refine ⟨rfl, rfl, [], ?_, rfl, ?_⟩
  · rw [run_nil, h.s1, h.s2]
    rfl
  · rw [run_nil, h.out, h.rx]
    rfl

theorem LinkInv.snoc {is : List (Pins × Pins)} {i : Pins × Pins} (h : LinkInv cpb s is)
    (hon : i.1.rstN = true ∧ i.2.rstN = true)
    (htimely : Timely (run (linkStep cpb) s is).2 i.2) : LinkInv cpb s (is ++ [i]) := by
  obtain ⟨htx, htaken, samples, hline, hrx, hheard⟩ := h
  have hins : txIns (is ++ [i]) = txIns is ++ [(i.1.sAxisTvalid, i.1.sAxisTdata)] := by
    rw [txIns, List.map_append]
    rfl
  generalize hnow : run (linkStep cpb) s is = now at *
  have hnext : run (linkStep cpb) s (is ++ [i]) = linkStep cpb now i := by rw [run_snoc, hnow]
  refine ⟨?_, ?_, samples ++ [now.2.rxS2], ?_, ?_, ?_⟩
  · rw [hnext, hins, run_snoc, ← htx]
    simp [linkStep, step, Tx.cycle, hon.1]
  · rw [trace_snoc, htaken, hnow, hins, SerialLink.taken_append, ← htx]
    simp [linkAcceptedS, acceptedS, SerialLink.taken, Tx.shows]
  · rw [hins, SerialLink.line_append, ← htx, hnext]
    have hpin : (serial cpb).line now.1.tx [(i.1.sAxisTvalid, i.1.sAxisTdata)] =
        [now.1.tx.tpin] := rfl
    rw [hpin, ← List.cons_append, ← List.cons_append, hline]
    simp [linkStep, step, uartTx]
  · rw [hnext, run_snoc, ← hrx]
    simp [linkStep, step, hon.2]
  · have hstep : (linkStep cpb now i).2.rx = now.2.rx.step cpb now.2.rxS2 := by
      simp [linkStep, step, hon.2]
    have hout : (linkStep cpb now i).2.out = (step cpb now.2 i.2).out := by
      simp [linkStep, step]
    have hsnoc : (serial cpb).heard s.2.rx (samples ++ [now.2.rxS2]) =
        (serial cpb).heard s.2.rx samples ++ now.2.rx.completes cpb now.2.rxS2 := by
      rw [hrx]
      exact trace_snoc _ _ _ _ _
    have hhand := htimely.handshake cpb hon.2
    unfold received at hhand
    rw [hsnoc, hheard, trace_snoc, hnow, hnext, hstep, hout, List.append_assoc (trace _ _ _ _),
      ← hhand]
    simp only [List.append_assoc, linkAcceptedM, Rx.completes]

theorem linkInv_run (hready : LinkReady s) {cycles : List (Pins × Pins)}
    (hon : ∀ i ∈ cycles, i.1.rstN = true ∧ i.2.rstN = true)
    (htimely : ∀ pre i, pre ++ [i] <+: cycles → Timely (run (linkStep cpb) s pre).2 i.2) :
    LinkInv cpb s cycles := by
  induction cycles using List.reverseRecOn with
  | nil => exact linkInv_nil hready
  | append_singleton is i ih =>
    refine (ih (fun j hj => hon j (by simp [hj])) fun pre j hpre => ?_).snoc (hon i (by simp))
      (htimely is i (List.prefix_refl _))
    exact htimely pre j (hpre.trans (List.prefix_append _ _))

variable (hlo : 2 ≤ cpb) (hhi : cpb ≤ 65536) (hready : LinkReady s)

include hready in
/-- The receiver waits on the idle line in front of the first frame. -/
theorem heard_afterIdle (cpb : Nat) (xs : List Bool) : ∃ r : Rx, r.Waiting ∧
    (serial cpb).heard s.2.rx (true :: true :: xs) = (serial cpb).heard r xs := by
  have hwait : s.2.rx.Waiting := by
    rw [hready.rx]
    rfl
  obtain ⟨hr, hnone⟩ := (rx_quiet 2 : RxTriple cpb _ _ _ _) s.2.rx hwait
  refine ⟨_, hr, ((serial cpb).heard_append s.2.rx [true, true] xs).trans ?_⟩
  exact congrArg (· ++ _) hnone

include hlo hhi hready in
/-- Nothing else arrives. -/
theorem LinkInv.isPrefix {is : List (Pins × Pins)} (h : LinkInv cpb s is) :
    trace (linkStep cpb) linkAcceptedM s is <+: trace (linkStep cpb) linkAcceptedS s is := by
  obtain ⟨-, htaken, samples, hline, -, hheard⟩ := h
  obtain ⟨r, hr, heq⟩ := heard_afterIdle hready cpb ((serial cpb).line s.1.tx (txIns is))
  have hall : (serial cpb).heard s.2.rx samples <+:
      (serial cpb).heard r ((serial cpb).line s.1.tx (txIns is)) := by
    rw [← heq, hline]
    exact ⟨_, ((serial cpb).heard_append _ _ _).symm⟩
  rw [hheard, List.append_assoc] at hall
  rw [htaken]
  exact ((List.prefix_append _ _).trans hall).trans (heard_isPrefix hlo hhi _ hready.tx hr)

include hlo hhi hready in
/-- Everything arrives within ten bit periods and the two stages of the synchroniser. -/
theorem LinkInv.arrives {pre q : List (Pins × Pins)} {x y : Pins × Pins}
    (hpre : LinkInv cpb s pre) (h : LinkInv cpb s (pre ++ q ++ [x, y]))
    (hq : 10 * cpb ≤ q.length) : trace (linkStep cpb) linkAcceptedS s pre <+:
      trace (linkStep cpb) linkAcceptedM s (pre ++ q ++ [x, y]) ++
        (run (linkStep cpb) s (pre ++ q ++ [x, y])).2.out.offered ++
        if (run (linkStep cpb) s (pre ++ q ++ [x, y])).2.rx.rdone then
          [(run (linkStep cpb) s (pre ++ q ++ [x, y])).2.rx.rbyte] else [] := by
  obtain ⟨-, -, samples, hline, -, hheard⟩ := h
  have hins : txIns (pre ++ q ++ [x, y]) = txIns (pre ++ q) ++ txIns [x, y] := List.map_append
  -- the last two values of the line are still in the synchroniser
  have hsamples : true :: true :: (serial cpb).line s.1.tx (txIns (pre ++ q)) = samples := by
    rw [hins, SerialLink.line_append, ← List.cons_append, ← List.cons_append] at hline
    exact List.append_inj_left' hline (by rw [length_line]; rfl)
  obtain ⟨r, hr, heq⟩ := heard_afterIdle hready cpb ((serial cpb).line s.1.tx (txIns (pre ++ q)))
  have hall : (serial cpb).taken s.1.tx (txIns pre) <+:
      (serial cpb).heard r ((serial cpb).line s.1.tx (txIns pre ++ txIns q)) :=
    taken_isPrefix hlo hhi _ _ (by rw [txIns, List.length_map]; exact hq) hready.tx hr
  have hpreq : txIns (pre ++ q) = txIns pre ++ txIns q := List.map_append
  rw [← hheard, ← hsamples, heq, hpre.taken_eq, hpreq]
  exact hall

end Link

/-- **UART round trip.** After reset, and with a consumer that takes each byte before the next
one replaces it: the bytes that the second bridge hands over are bytes that the first one has
taken, in order, and every byte that was taken more than ten bit periods ago has been handed
over or is the one on offer. -/
theorem uart_round_trip {cpb : Nat} (hlo : 2 ≤ cpb) (hhi : cpb ≤ 65536) {s₀ : Regs × Regs}
    {resets cycles : List (Pins × Pins)} (hresets : 3 ≤ resets.length)
    (hoff : ∀ i ∈ resets, i.1.rstN = false ∧ i.2.rstN = false)
    (hon : ∀ i ∈ cycles, i.1.rstN = true ∧ i.2.rstN = true)
    (htimely : ∀ pre i, pre ++ [i] <+: cycles →
      Timely (run (linkStep cpb) (run (linkStep cpb) s₀ resets) pre).2 i.2) :
    let s := run (linkStep cpb) s₀ resets
    trace (linkStep cpb) linkAcceptedM s cycles <+: trace (linkStep cpb) linkAcceptedS s cycles ∧
    ∀ pre q, cycles = pre ++ q → 10 * cpb + 3 ≤ q.length →
      trace (linkStep cpb) linkAcceptedS s pre <+:
        trace (linkStep cpb) linkAcceptedM s cycles ++
          (run (linkStep cpb) s cycles).2.out.offered := by
  intro s
  have hready : LinkReady s := linkReady_of_resets hresets hoff
  have hinv : ∀ is, is <+: cycles → LinkInv cpb s is := fun is his =>
    linkInv_run hready (fun i hi => hon i (his.subset hi)) fun pre i hpre =>
      htimely pre i (hpre.trans his)
  refine ⟨(hinv _ (List.prefix_refl _)).isPrefix hlo hhi hready, ?_⟩
  rintro pre q rfl hq
  obtain ⟨q₁, x, y, z, rfl⟩ := lastThree (by omega : 3 ≤ q.length)
  have hlen : 10 * cpb ≤ q₁.length := by
    simp only [List.length_append, List.length_cons, List.length_nil] at hq
    omega
  have hassoc : pre ++ (q₁ ++ [x, y, z]) = pre ++ q₁ ++ [x, y] ++ [z] := by simp
  rw [hassoc] at hinv htimely hon ⊢
  have hlast := (hinv pre (hassoc ▸ List.prefix_append _ _)).arrives hlo hhi hready (hinv _ ⟨[z], rfl⟩) hlen
  have hhand := (htimely (pre ++ q₁ ++ [x, y]) z (List.prefix_refl _)).handshake cpb
    (hon z (by simp)).2
  have hout : (run (linkStep cpb) s (pre ++ q₁ ++ [x, y] ++ [z])).2.out =
      (step cpb (run (linkStep cpb) s (pre ++ q₁ ++ [x, y])).2 z.2).out := by
    rw [run_snoc]
    rfl
  rw [trace_snoc, hout, List.append_assoc, linkAcceptedM, hhand]
  rw [List.append_assoc] at hlast
  exact hlast

/-- A byte for a link with two cycles per bit, and a consumer that is always ready. -/
def oneByte : List (Pins × Pins) :=
  (⟨true, true, true, 0x5a, true⟩, ⟨true, true, true, 0, false⟩) ::
    List.replicate 23 (⟨true, true, true, 0, false⟩, ⟨true, true, true, 0, false⟩)

def restart : List (Pins × Pins) :=
  List.replicate 3 (⟨false, true, true, 0, false⟩, ⟨false, true, true, 0, false⟩)

theorem uart_round_trip_oneByte :
    let s := run (linkStep 2)
      (⟨true, true, .reset, .reset, .reset⟩, ⟨true, true, .reset, .reset, .reset⟩) restart
    trace (linkStep 2) linkAcceptedS s (oneByte.take 1) <+:
      trace (linkStep 2) linkAcceptedM s oneByte ++ (run (linkStep 2) s oneByte).2.out.offered := by
  have hready : ∀ i ∈ oneByte, i.2.mAxisTready = true := by decide
  exact (uart_round_trip (by decide) (by decide) (by decide) (by decide) (by decide)
    fun pre i hpre _ _ => hready i (hpre.subset (by simp))).2 _ (oneByte.drop 1) rfl (by decide)

end FpgaHashJoin.UartStreamBridge
