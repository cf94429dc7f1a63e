import FpgaHashJoin.Host.FpgaClient
import FpgaHashJoin.Process.Machine

/-!
# The waits of the client

What a wait of the client does with one frame. `awaiting kind acc k` is the client in
`collect_until_ack`, in front of the next frame, with the results `acc` collected and the
rest `k` of the call to follow.
-/

namespace FpgaHashJoin

open Process ResultDecoder

/-! ## Reading bytes -/

theorem runs_recv (kind : AckWaitKind) (n : Nat) (x : Option UInt8) :
    Runs (ClientM.recv kind n).run [(kind, x)] [] (.ret (.ok x.toList)) :=
  .poll rfl (.refl _)

/-- Read exactly the given bytes. -/
theorem runs_recvExact (kind : AckWaitKind) (bs : List UInt8) :
    Runs (recvExact (ClientM.recv kind) bs.length).run (tagged kind bs) [] (.ret (.ok bs)) := by
  induction bs with
  | nil =>
    rw [recvExact]
    exact .refl _
  | cons v bs ih =>
    rw [recvExact, if_neg (by simp)]
    refine (runs_recv kind _ (some v)).seqOkReads ?_
    rw [dif_neg (by simp)]
    exact ih.mapOk fun rest => [v] ++ rest

/-- The bytes stop before there are enough of them. -/
theorem runs_recvExact_cut (kind : AckWaitKind) (bs : List UInt8) {n : Nat} (h : bs.length < n) :
    Runs (recvExact (ClientM.recv kind) n).run (tagged kind bs ++ [(kind, none)]) []
      (.ret (.error partialFrame)) := by
  induction bs generalizing n with
  | nil =>
    have hn : n ≠ 0 := Nat.ne_of_gt h
    rw [recvExact, if_neg hn]
    refine (runs_recv kind n none).seqOkReads ?_
    rw [dif_pos (show (none : Option UInt8).toList = [] from rfl)]
    exact .refl _
  | cons v bs ih =>
    rw [List.length_cons] at h
    rw [recvExact, if_neg (by omega)]
    refine (runs_recv kind n (some v)).seqOkReads ?_
    rw [dif_neg (by simp)]
    exact (ih (n := n - [v].length) (by simp; omega)).seqError

/-! ## Reading a frame -/

theorem runs_recvFrame (kind : AckWaitKind) {f : TxFrame} (hf : f.WellFormed) :
    Runs (recvFrame (ClientM.recv kind)).run (tagged kind f.bytes) [] (.ret (.ok (some f))) := by
  rw [TxFrame.bytes_eq hf, tagged_cons, tagged_append]
  obtain ⟨decode, hdecode, hpayload⟩ := recvPayload_eq (ClientM.recv kind) hf
  have hword : readU16 (LittleEndian.bytes16 f.count) = f.count :=
    LittleEndian.word16_bytes16 f.count
  have hcount := runs_recvExact kind (LittleEndian.bytes16 f.count)
  rw [LittleEndian.length_bytes16] at hcount
  have hread := (runs_recvExact kind f.payload).mapOk decode
  rw [← hpayload, hdecode] at hread
  refine (runs_recv kind 1 (some f.type.code)).seqOkReads ?_
  refine hcount.seqOkReads ?_
  rw [hword]
  exact hread.mapOk some

/-- The bytes of a frame stop after its first byte. -/
theorem runs_recvFrame_cut (kind : AckWaitKind) {f : TxFrame} (hf : f.WellFormed) {n : Nat}
    (hpos : 0 < n) (hn : n < f.bytes.length) :
    Runs (recvFrame (ClientM.recv kind)).run (tagged kind (f.bytes.take n) ++ [(kind, none)]) []
      (.ret (.error partialFrame)) := by
  obtain ⟨n, rfl⟩ : ∃ m, n = m + 1 := ⟨n - 1, by omega⟩
  rw [TxFrame.bytes_eq hf] at hn ⊢
  rw [List.take_succ_cons, tagged_cons, List.cons_append]
  simp only [List.length_cons, List.length_append, LittleEndian.length_bytes16] at hn
  refine (runs_recv kind 1 (some f.type.code)).seqOkReads (?_ : Runs _ (_ ++ _) _ _)
  by_cases hcount : n < 2
  · -- inside the count
    rw [List.take_append_of_le_length (by rw [LittleEndian.length_bytes16]; omega)]
    refine (runs_recvExact_cut kind _ ?_).seqError
    rw [List.length_take, LittleEndian.length_bytes16]
    omega
  · -- inside the payload
    obtain ⟨decode, -, hpayload⟩ := recvPayload_eq (ClientM.recv kind) hf
    have hword : readU16 (LittleEndian.bytes16 f.count) = f.count :=
      LittleEndian.word16_bytes16 f.count
    have hread := runs_recvExact kind (LittleEndian.bytes16 f.count)
    rw [LittleEndian.length_bytes16] at hread
    rw [List.take_append, List.take_of_length_le (by rw [LittleEndian.length_bytes16]; omega),
      tagged_append, List.append_assoc]
    refine hread.seqOkReads ?_
    rw [hword, hpayload]
    refine Runs.seqError (Runs.seqError (runs_recvExact_cut kind _ ?_))
    rw [List.length_take, LittleEndian.length_bytes16]
    omega

/-! ## One round of a wait -/

/-- What a frame is to a wait. -/
inductive Heard where
  | more (pairs : List ResultPair)
  | answer (a : StatusPayload)
  | failure (e : ClientError)
  deriving DecidableEq, Repr

namespace JoinCall

variable (j : JoinCall) {α : Type}

def heard (kind : AckWaitKind) : TxFrame → Heard
  | .results pairs => .more pairs
  | .ack a | .status a =>
    if kind ≠ .reset ∧ a.sessionId ≠ j.activeSessionId then .more [] else .answer a
  | .error code => .failure (.fpgaError code)
  | .debug _ _ _ | .timing _ => .more []

/-- The rest of a call after a wait. -/
abbrev AfterWait (α : Type) := Except ClientError (List ResultPair × StatusPayload) → CProc α

/-- The round as a round of the plain loop. -/
def collectRound (kind : AckWaitKind) (acc : List ResultPair) :
    CProc (List ResultPair ⊕ Except ClientError (List ResultPair × StatusPayload)) :=
  (j.collectBody kind acc).run >>= fun r => .ret (iterResult r)

/-- The client in front of the next frame of a wait. -/
def awaiting (kind : AckWaitKind) (acc : List ResultPair) (k : AfterWait α) : CProc α :=
  j.collectRound kind acc >>= Sum.elim (fun acc => .loop (j.collectRound kind) acc k) k

theorem awaiting_waiting (kind : AckWaitKind) (acc : List ResultPair) (k : AfterWait α) :
    (j.awaiting kind acc k).Waiting :=
  trivial

/-- The client after a frame. -/
def hearing (kind : AckWaitKind) (acc : List ResultPair) (k : AfterWait α) : Heard → CProc α
  | .more pairs => j.awaiting kind (acc ++ pairs) k
  | .answer a => k (.ok (acc, a))
  | .failure e => k (.error e)

/-- The result of a round. -/
def roundResult (acc : List ResultPair) :
    Heard → Except ClientError (List ResultPair ⊕ List ResultPair × StatusPayload)
  | .more pairs => .ok (.inl (acc ++ pairs))
  | .answer a => .ok (.inr (acc, a))
  | .failure e => .error e

/-- The result of a round, by what the decoder returns. -/
def received (kind : AckWaitKind) (acc : List ResultPair) :
    Except ClientError (Option TxFrame) →
      Except ClientError (List ResultPair ⊕ List ResultPair × StatusPayload)
  | .error e => .error e
  | .ok none => .error .timeout
  | .ok (some f) => roundResult acc (j.heard kind f)

theorem collectBody_run (kind : AckWaitKind) (acc : List ResultPair) :
    (j.collectBody kind acc).run =
      (recvFrame (ClientM.recv kind)).run >>= fun r => .ret (j.received kind acc r) := by
  have hnothing : roundResult acc (.more []) = .ok (.inl acc) := by
    rw [roundResult, List.append_nil]
  rw [collectBody, ExceptT.run_bind]
  refine congrArg (_ >>= ·) (funext fun r => ?_)
  rcases r with e | _ | f
  · rfl
  · rfl
  · cases f with
    | ack a | status a =>
      unfold received heard
      dsimp only
      split
      · rw [hnothing]
        rfl
      · rfl
    | debug _ _ _ | timing _ =>
      rw [received, heard, hnothing]
      rfl
    | results pairs => rfl
    | error code => rfl

/-- **A frame is collected, or it ends the wait.** -/
theorem awaiting_frame (kind : AckWaitKind) (acc : List ResultPair) (k : AfterWait α)
    {f : TxFrame} (hf : f.WellFormed) :
    Runs (j.awaiting kind acc k) (tagged kind f.bytes) []
      (j.hearing kind acc k (j.heard kind f)) := by
  have hbody : Runs (j.collectBody kind acc).run (tagged kind f.bytes) []
      (.ret (roundResult acc (j.heard kind f))) := by
    rw [collectBody_run]
    exact (runs_recvFrame kind hf).bind _
  have hround : Runs (j.collectRound kind acc) (tagged kind f.bytes) []
      (.ret (iterResult (roundResult acc (j.heard kind f)))) := hbody.bind _
  have hwait := hround.bind (Sum.elim (fun acc => .loop (j.collectRound kind) acc k) k)
  cases hheard : j.heard kind f with
  | more pairs =>
    rw [hheard] at hwait
    exact hwait.trans_nil (.tau rfl (.refl _))
  | answer a =>
    rw [hheard] at hwait
    exact hwait
  | failure e =>
    rw [hheard] at hwait
    exact hwait

/-- Nothing arrives in time. -/
theorem awaiting_timeout (kind : AckWaitKind) (acc : List ResultPair) (k : AfterWait α) :
    Runs (j.awaiting kind acc k) [(kind, none)] [] (k (.error .timeout)) :=
  .poll rfl (.refl _)

/-- A frame is cut off. -/
theorem awaiting_cut (kind : AckWaitKind) (acc : List ResultPair) (k : AfterWait α)
    {f : TxFrame} (hf : f.WellFormed) {n : Nat} (hpos : 0 < n) (hn : n < f.bytes.length) :
    Runs (j.awaiting kind acc k) (tagged kind (f.bytes.take n) ++ [(kind, none)]) []
      (k (.error partialFrame)) := by
  have hframe := runs_recvFrame_cut kind hf hpos hn
  have hbody : Runs (j.collectBody kind acc).run (tagged kind (f.bytes.take n) ++ [(kind, none)])
      [] (.ret (.error partialFrame)) := hframe.seqError
  have hround : Runs (j.collectRound kind acc) (tagged kind (f.bytes.take n) ++ [(kind, none)]) []
      (.ret (.inr (.error partialFrame))) := hbody.bind _
  exact hround.bind (Sum.elim (fun acc => .loop (j.collectRound kind) acc k) k)

end JoinCall

end FpgaHashJoin
