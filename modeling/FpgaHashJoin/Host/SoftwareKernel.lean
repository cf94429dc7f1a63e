import FpgaHashJoin.EquiJoin
import FpgaHashJoin.Host.Events
import FpgaHashJoin.LinearHashTable
import FpgaHashJoin.Process.Device

/-!
# The software kernel

`SoftwareKernel` stands in for the board: a transport that handles a frame inside of `send` and
queues the answers for `recv`. The module runs the client against it. The answers to INNER_DATA
frames report no rows, and no answer reports DONE, so that the client gives up on almost every
input that the kernel of the board would join.
-/

namespace FpgaHashJoin

open Process LittleEndian CreditWindow EquiJoin

structure SoftwareKernel where
  keyType : UInt8 := KeyType.int32.code
  nMatched : UInt32 := 0
  nProcessed : UInt32 := 0
  outerTotal : UInt32 := 0
  sessionId : UInt8 := 0
  ht : Int64 → Option Tid := fun _ => none
  respQueue : List (List UInt8) := []
  outBuf : List UInt8 := []

namespace SoftwareKernel

/-! ## Byte helpers -/

/-- A byte of the payload. -/
def byteAt (p : List UInt8) (i : Nat) : UInt8 := p.getD i 0

def readU32 (p : List UInt8) : UInt32 := word32 (byteAt p 0) (byteAt p 1) (byteAt p 2) (byteAt p 3)

def readTid (p : List UInt8) : Tid := ⟨readU32 p, word16 (byteAt p 4) (byteAt p 5)⟩

variable (k : SoftwareKernel)

def keyBytes : Nat := if k.keyType = KeyType.int32.code then 4 else 8

/-- Key, block number and offset. -/
def tupleStride : Nat := k.keyBytes + 6

def readKey (p : List UInt8) : Int64 :=
  if k.keyType = KeyType.int32.code then (readU32 p).toInt32.toInt64
  else (word64 (byteAt p 0) (byteAt p 1) (byteAt p 2) (byteAt p 3) (byteAt p 4) (byteAt p 5)
    (byteAt p 6) (byteAt p 7)).toInt64

/-! ## Frame builders -/

def push (f : List UInt8) : SoftwareKernel := { k with respQueue := k.respQueue ++ [f] }

def pushAck (phase : Phase) (credit : UInt16) (processed matched : UInt32) : SoftwareKernel :=
  k.push ([MsgType.ack.code] ++ bytes16 1 ++ [phase.code, k.sessionId] ++ bytes16 credit ++
    bytes32 processed ++ bytes32 matched)

def pushResult (pairs : List ResultPair) : SoftwareKernel :=
  k.push ([MsgType.result.code] ++ bytes16 (UInt16.ofNat pairs.length) ++
    pairs.flatMap fun r => bytes32 r.innerTid.blkno ++ bytes16 r.innerTid.offno ++
      bytes32 r.outerTid.blkno ++ bytes16 r.outerTid.offno)

/-! ## Protocol handlers -/

def onConfigure (p : List UInt8) : SoftwareKernel :=
  { k with
    keyType := byteAt p 1
    nMatched := 0
    nProcessed := 0
    outerTotal := readU32 (p.drop 8)
    sessionId := byteAt p 12
    ht := fun _ => none }.pushAck .building (UInt16.ofNat rxCreditTuples) 0 0

/-- The tuples of an INNER_DATA frame; a later tuple replaces an earlier one with its key. -/
def insertTuples : Nat → List UInt8 → SoftwareKernel → SoftwareKernel
  | 0, _, k => k
  | n + 1, p, k =>
    insertTuples n (p.drop k.tupleStride)
      { k with ht := Function.update k.ht (k.readKey p) (some (readTid (p.drop k.keyBytes))) }

def onInner (count : UInt16) (p : List UInt8) : SoftwareKernel :=
  (insertTuples count.toNat p k).pushAck .building (UInt16.ofNat rxCreditTuples) 0 0

/-- The tuples of an OUTER_DATA frame, with the pairs found so far. -/
def lookupTuples :
    Nat → List UInt8 → SoftwareKernel × List ResultPair → SoftwareKernel × List ResultPair
  | 0, _, r => r
  | n + 1, p, (k, found) =>
    lookupTuples n (p.drop k.tupleStride) <|
      match k.ht (k.readKey p) with
      | some innerTid =>
        ({ k with nMatched := k.nMatched + 1, nProcessed := k.nProcessed + 1 },
          found ++ [(innerTid, readTid (p.drop k.keyBytes))])
      | none => ({ k with nProcessed := k.nProcessed + 1 }, found)

def onOuter (count : UInt16) (p : List UInt8) : SoftwareKernel :=
  let (k, found) := lookupTuples count.toNat p (k, [])
  let k := if found.isEmpty then k else k.pushResult found
  k.pushAck .probing (if k.outerTotal ≤ k.nProcessed then 0 else UInt16.ofNat rxCreditTuples)
    k.nProcessed k.nMatched

def onReset (emitAck : Bool) : SoftwareKernel :=
  let k : SoftwareKernel := { keyType := k.keyType }
  if emitAck then k.pushAck .idle 0 0 0 else k

/-! ## The transport -/

/-- One call of `send`; only the first frame of the data is handled. -/
def send (data : List UInt8) : SoftwareKernel :=
  if data.length < 3 then k
  else
    let msg := byteAt data 0
    let n := word16 (byteAt data 1) (byteAt data 2)
    let payload := data.drop 3
    if msg = MsgType.configure.code then k.onConfigure payload
    else if msg = MsgType.innerData.code then k.onInner n payload
    else if msg = MsgType.outerData.code then k.onOuter n payload
    else if msg = MsgType.reset.code then k.onReset true
    else k

/-- Take frames from the queue until there is something to hand over. -/
def refill : List UInt8 → List (List UInt8) → List UInt8 × List (List UInt8)
  | [], [] => ([], [])
  | [], f :: fs => refill f fs
  | b :: bs, fs => (b :: bs, fs)

def recv (maxLen : Nat) : List UInt8 × SoftwareKernel :=
  let (out, queue) := refill k.outBuf k.respQueue
  (out.take maxLen, { k with outBuf := out.drop maxLen, respQueue := queue })

/-- The transport as the device of the client, which takes the bytes one by one. Without a byte
`recv` returns zero until the hard time-out of the wait. -/
def device : Device SoftwareKernel UInt8 Packet where
  recv := fun k => ((k.recv 1).1.head?, (k.recv 1).2)
  send := fun k p => k.send p.bytes

end SoftwareKernel

/-- The call returns `r` when it is made over a new software kernel. -/
def SoftwareReturns (j : JoinCall) (r : JoinResult) : Prop :=
  ∃ k, SoftwareKernel.device.Drives {} j.runHashJoin k (.ret r)

/-! ## What is still to be read -/

namespace SoftwareKernel

variable {k : SoftwareKernel} {fs : List TxFrame} {f : TxFrame}

/-- The bytes that have not been handed over are those of the frames. -/
def Holds (k : SoftwareKernel) (fs : List TxFrame) : Prop :=
  k.outBuf ++ k.respQueue.flatten = fs.flatMap TxFrame.bytes

end SoftwareKernel

/-! ## The client over the software kernel -/

open SoftwareKernel

section Reaches

variable {j : JoinCall} {st : CState} {k : SoftwareKernel} {r : JoinResult} {f : TxFrame}
  {fs : List TxFrame}

end Reaches

/-! ## How the frames of the client are answered -/

namespace SoftwareKernel

variable {k : SoftwareKernel} {fs : List TxFrame}

theorem Holds.pushAck (h : k.Holds fs) (phase : Phase) (credit : UInt16)
    (processed matched : UInt32) :
    (k.pushAck phase credit processed matched).Holds (fs ++ [.ack
      { phase := phase.code
        sessionId := k.sessionId
        credit
        rowsProcessed := processed
        rowsMatched := matched }]) := by
  have hk : k.outBuf ++ k.respQueue.flatten = fs.flatMap TxFrame.bytes := h
  show k.outBuf ++ (k.respQueue ++ [_]).flatten = _
  rw [List.flatten_append, ← List.append_assoc, hk, List.flatMap_append, List.flatten_singleton,
    List.flatMap_singleton]
  rfl

/-- The first three bytes choose the handler. -/
theorem send_frame (k : SoftwareKernel) (type : MsgType) (count : Nat) (payload : List UInt8) :
    k.send (hostHeader type count ++ payload) = match type with
      | .configure => k.onConfigure payload
      | .innerData => k.onInner (UInt16.ofNat count) payload
      | .outerData => k.onOuter (UInt16.ofNat count) payload
      | .reset => k.onReset true
      | _ => k := by
  have hdata : hostHeader type count ++ payload = type.code ::
      (UInt16.ofNat count).toUInt8 :: ((UInt16.ofNat count) >>> 8).toUInt8 :: payload := rfl
  have hcount := word16_bytes16 (UInt16.ofNat count)
  rw [hdata]
  unfold send
  rw [if_neg (by simp)]
  simp only [byteAt, List.getD_cons_zero, List.getD_cons_succ, List.drop_succ_cons, List.drop_zero,
    hcount]
  cases type <;> rfl

theorem send_data (k : SoftwareKernel) (msg : DataMsg) (w : KeyType) (ts : List InputTuple) :
    k.send (Packet.bytes [.data msg w ts]) = match msg with
      | .inner => k.onInner (UInt16.ofNat ts.length) (ts.flatMap (TupleSerializer.putTuple w))
      | .outer => k.onOuter (UInt16.ofNat ts.length) (ts.flatMap (TupleSerializer.putTuple w)) := by
  have hbytes : Packet.bytes [.data msg w ts] = (HostFrame.data msg w ts).bytes :=
    List.flatMap_singleton ..
  rw [hbytes, HostFrame.bytes_data, send_frame]
  cases msg <;> rfl

theorem Holds.configure (h : k.Holds fs) (payload : List UInt8) :
    (k.onConfigure payload).Holds (fs ++ [.ack
      { phase := Phase.building.code
        sessionId := byteAt payload 12
        credit := UInt16.ofNat rxCreditTuples }]) := by
  have hk : ({ k with
      keyType := byteAt payload 1
      nMatched := 0
      nProcessed := 0
      outerTotal := readU32 (payload.drop 8)
      sessionId := byteAt payload 12
      ht := fun _ => none } : SoftwareKernel).Holds fs := h
  exact hk.pushAck .building _ 0 0

/-- INNER_DATA is acknowledged without rows. -/
theorem Holds.inner (h : k.Holds fs) (count : UInt16) (payload : List UInt8) :
    (k.onInner count payload).Holds (fs ++ [.ack
      { phase := Phase.building.code
        sessionId := k.sessionId
        credit := UInt16.ofNat rxCreditTuples }]) ∧
      (k.onInner count payload).sessionId = k.sessionId := by
  have hsame : ∀ n p (k : SoftwareKernel), (insertTuples n p k).sessionId = k.sessionId ∧
      (insertTuples n p k).outBuf = k.outBuf ∧ (insertTuples n p k).respQueue = k.respQueue := by
    intro n
    induction n with
    | zero => exact fun p k => ⟨rfl, rfl, rfl⟩
    | succ n ih => exact fun p k => ih _ _
  obtain ⟨hsession, hout, hqueue⟩ := hsame count.toNat payload k
  have hinserted : (insertTuples count.toNat payload k).Holds fs := by
    unfold Holds
    rw [hout, hqueue]
    exact h
  refine ⟨?_, hsession⟩
  rw [← hsession]
  exact hinserted.pushAck _ _ _ _

/-- Without a table no row of OUTER_DATA matches. -/
theorem lookupTuples_empty (n : Nat) (p : List UInt8) (hk : k.ht = fun _ => none) :
    lookupTuples n p (k, []) = ({ k with nProcessed := k.nProcessed + UInt32.ofNat n }, []) := by
  induction n generalizing p k with
  | zero => simp [lookupTuples]
  | succ n ih =>
    have hnone : k.ht (k.readKey p) = none := by rw [hk]
    rw [lookupTuples, hnone]
    rw [ih _ (k := { k with nProcessed := k.nProcessed + 1 }) hk]
    simp [UInt32.ofNat_add, UInt32.add_assoc, UInt32.add_comm]

theorem onOuter_empty (count : UInt16) (p : List UInt8) (hk : k.ht = fun _ => none) :
    k.onOuter count p =
      { k with nProcessed := k.nProcessed + UInt32.ofNat count.toNat }.pushAck .probing
        (if k.outerTotal ≤ k.nProcessed + UInt32.ofNat count.toNat then 0
          else UInt16.ofNat rxCreditTuples)
        (k.nProcessed + UInt32.ofNat count.toNat) k.nMatched := by
  rw [onOuter, lookupTuples_empty _ _ hk]
  rfl

end SoftwareKernel

/-! ## Build phase -/

section Build

variable {j : JoinCall} {k : SoftwareKernel} {fs : List TxFrame} {r : JoinResult}

end Build

/-! ## Probe phase without a table -/

section Probe

variable {j : JoinCall} {k : SoftwareKernel} {v : Window}

/-- The answer to the frame with which `c` rows have been taken. -/
def lookedUp (j : JoinCall) (c : Nat) : StatusPayload where
  phase := Phase.probing.code
  sessionId := j.activeSessionId
  credit :=
    if UInt32.ofNat j.outer.length ≤ UInt32.ofNat c then 0 else UInt16.ofNat rxCreditTuples
  rowsProcessed := UInt32.ofNat c

/-- The answers to the frames that are under way. -/
def lookedUpAll (j : JoinCall) : Nat → List Nat → List TxFrame
  | _, [] => []
  | c, n :: ns => .ack (lookedUp j (c + n)) :: lookedUpAll j (c + n) ns

theorem lookedUpAll_snoc (c n : Nat) (ns : List Nat) :
    lookedUpAll j c (ns ++ [n]) = lookedUpAll j c ns ++ [.ack (lookedUp j (c + ns.sum + n))] := by
  induction ns generalizing c with
  | nil => simp [lookedUpAll]
  | cons m ns ih => simp [lookedUpAll, ih, Nat.add_assoc]

/-- The software kernel has handled all that has been sent. -/
structure Looking (j : JoinCall) (v : Window) (k : SoftwareKernel) : Prop where
  table : k.ht = fun _ => none
  session : k.sessionId = j.activeSessionId
  total : k.outerTotal = UInt32.ofNat j.outer.length
  processed : k.nProcessed = UInt32.ofNat v.sent
  matched : k.nMatched = 0
  pending : k.Holds (lookedUpAll j v.acked v.inflight)
  balance : v.acked + v.inflight.sum = v.sent
  sent_le : v.sent ≤ j.outer.length
  sizes : ∀ n ∈ v.inflight, 0 < n ∧ n ≤ rxBufTuples

/-- One frame of outer rows. -/
theorem Looking.send (h : Looking j v k) {n : Nat}
    (hnext : v.next j.batch j.outer.length = some n) :
    Looking j (v.push n)
      (device.send k [.data .outer j.config.keyType ((j.outer.drop v.sent).take n)]) := by
  obtain ⟨hmore, hmin, -⟩ := (Window.next_eq_some j.client.batch_pos).mp hnext
  have hbatch : j.batch ≤ rxBufTuples := j.client.batch_le
  have hpos : 0 < j.batch := j.client.batch_pos
  have hn : n = min j.batch (j.outer.length - v.sent) := hmin
  have hlen : ((j.outer.drop v.sent).take n).length = n := by
    rw [List.length_take, List.length_drop]
    omega
  have hcount : (UInt16.ofNat n).toNat = n := by
    have hfits : ((j.outer.drop v.sent).take n).length ≤ rxBufTuples := by omega
    have h16 := toNat_frameCount hfits
    rwa [hlen] at h16
  have hsend : device.send k [.data .outer j.config.keyType ((j.outer.drop v.sent).take n)] =
      k.onOuter (UInt16.ofNat n) (((j.outer.drop v.sent).take n).flatMap
        (TupleSerializer.putTuple j.config.keyType)) := by
    have hdata := send_data k .outer j.config.keyType ((j.outer.drop v.sent).take n)
    rw [hlen] at hdata
    exact hdata
  have hrows : k.nProcessed + UInt32.ofNat n = UInt32.ofNat (v.sent + n) := by
    rw [h.processed, UInt32.ofNat_add]
  rw [hsend, onOuter_empty _ _ h.table, hcount, hrows]
  refine ⟨h.table, h.session, h.total, rfl, h.matched, ?_, ?_, ?_, ?_⟩
  · have hheld : ({ k with nProcessed := UInt32.ofNat (v.sent + n) } : SoftwareKernel).Holds
        (lookedUpAll j v.acked v.inflight) := h.pending
    have hpushed := hheld.pushAck .probing (if k.outerTotal ≤ UInt32.ofNat (v.sent + n) then 0
      else UInt16.ofNat rxCreditTuples) (UInt32.ofNat (v.sent + n)) k.nMatched
    have hack : lookedUp j (v.sent + n) =
        { phase := Phase.probing.code
          sessionId := k.sessionId
          credit := if k.outerTotal ≤ UInt32.ofNat (v.sent + n) then 0
            else UInt16.ofNat rxCreditTuples
          rowsProcessed := UInt32.ofNat (v.sent + n)
          rowsMatched := k.nMatched } := by
      rw [h.session, h.total, h.matched]
      rfl
    show SoftwareKernel.Holds _ (lookedUpAll j v.acked (v.inflight ++ [n]))
    rw [lookedUpAll_snoc, h.balance, hack]
    exact hpushed
  · show v.acked + (v.inflight ++ [n]).sum = v.sent + n
    rw [List.sum_append, List.sum_singleton, ← Nat.add_assoc, h.balance]
  · show v.sent + n ≤ _
    omega
  · intro m hm
    rcases List.mem_append.mp hm with hm | hm
    · exact h.sizes m hm
    · rw [List.mem_singleton.mp hm]
      omega

theorem Looking.fill (h : Looking j v k) (slots : Nat) :
    Looking j (v.fill j.batch j.outer.length slots)
      ((j.rowPackets .outer j.outer slots v).foldl device.send k) := by
  induction slots generalizing v k with
  | zero => exact h
  | succ slots ih =>
    unfold Window.fill JoinCall.rowPackets
    cases hnext : v.next j.batch j.outer.length with
    | none => exact h
    | some n => exact ih (h.send hnext)

/-- An answer retires the frame it belongs to, unless the count has wrapped around. -/
theorem Looking.retire (h : Looking j v k) {n : Nat} {ns : List Nat} (hv : v.inflight = n :: ns)
    (credit : Nat) :
    applyCumulativeAck { v with credit } (UInt32.ofNat (v.acked + n)) =
      if v.acked + n < 2 ^ 32 then (1, ⟨v.sent, v.acked + n, credit, ns⟩)
      else (0, { v with credit }) := by
  have hn : 0 < n ∧ n ≤ 256 := h.sizes n (by simp [hv])
  have hrows : (UInt32.ofNat (v.acked + n)).toNat = (v.acked + n) % 2 ^ 32 := UInt32.toNat_ofNat
  unfold applyCumulativeAck
  dsimp only
  by_cases hfit : v.acked + n < 2 ^ 32
  · rw [Nat.mod_eq_of_lt hfit] at hrows
    have hrest : CreditWindow.retire (v.acked + n) (v.acked + n) ns = (0, v.acked + n, ns) := by
      cases hns : ns with
      | nil => rfl
      | cons m ms =>
        have hm : 0 < m := (h.sizes m (by simp [hv, hns])).1
        rw [CreditWindow.retire, if_neg (by omega)]
    rw [if_pos hfit, hrows, if_neg (by omega), hv, CreditWindow.retire, if_pos (Nat.le_refl _),
      hrest]
  · rw [if_neg hfit, if_pos (by omega)]

end Probe

/-! ## The whole call -/

/-- A call over the software kernel comes to one result. -/
theorem SoftwareReturns.unique {j : JoinCall} {r r' : JoinResult} (h : SoftwareReturns j r)
    (h' : SoftwareReturns j r') : r = r' := by
  obtain ⟨k, hk⟩ := h
  obtain ⟨k', hk'⟩ := h'
  exact hk.unique hk'

end FpgaHashJoin
