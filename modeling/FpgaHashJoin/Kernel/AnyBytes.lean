import FpgaHashJoin.Kernel.Framing
import FpgaHashJoin.Process.AllRuns

/-!
# Reading arbitrary bytes

The rules of `Process.AllRuns` for the kernel's readers: whatever bytes arrive, they are the
bytes of some value, and the rest of the process goes on with this value and a longer log. The
reads must not make the log bad, except that the last of them may, if a fault follows
(`Guarded`).
-/

namespace FpgaHashJoin

open Process KState LittleEndian

/-- The bytes that were read, each with the place in the kernel that read it. -/
abbrev Log := List (Site × Option UInt8)

/-- The bytes of tuple identifiers that have been read, six for each tuple. -/
def tidBytesIn (L : Log) : Nat := L.countP (·.1 = .tid)

@[simp] theorem tidBytesIn_append (L M : Log) :
    tidBytesIn (L ++ M) = tidBytesIn L + tidBytesIn M :=
  List.countP_append

theorem tidBytesIn_tupleReads (w : KeyType) (t : InputTuple) :
    tidBytesIn (tupleReads w t) = 6 := by
  cases w <;> rfl

theorem tidBytesIn_tuples (w : KeyType) (ts : List InputTuple) :
    tidBytesIn (ts.flatMap (tupleReads w)) = 6 * ts.length := by
  induction ts with
  | nil => rfl
  | cons t ts ih =>
    rw [List.flatMap_cons, tidBytesIn_append, tidBytesIn_tupleReads, ih, List.length_cons]
    omega

theorem tidBytesIn_headerReads (type : MsgType) (count : Nat) :
    tidBytesIn (headerReads type count) = 0 := rfl

theorem tidBytesIn_data (msg : DataMsg) (w : KeyType) (ts : List InputTuple) :
    tidBytesIn (HostFrame.data msg w ts).reads = 6 * ts.length := by
  rw [HostFrame.reads, tidBytesIn_append, tidBytesIn_headerReads, tidBytesIn_tuples, Nat.zero_add]

variable {L : Log} {α : Type} {Q : Log → α → Prop} {site : Site} {bad : Log → Prop}
  {ok : Log → TxFrame → Prop}

/-- If one of these reads makes the log bad, it is the last one and a fault follows. -/
def Guarded (bad : Log → Prop) (L R : Log) (p : KProc α) : Prop :=
  ∀ M, M <+: R → M ≠ [] → bad (L ++ M) → M = R ∧ p = .fault

/-- A read at this place never makes the log bad. -/
def Harmless (bad : Log → Prop) (site : Site) : Prop := ∀ M x, ¬ bad (M ++ [(site, x)])

namespace Guarded

variable {R R' : Log} {e : Site × Option UInt8} {p : KProc α}

theorem of_calm (h : ∀ M, M <+: R → M ≠ [] → ¬ bad (L ++ M)) : Guarded bad L R p :=
  fun M hM hne hbad => absurd hbad (h M hM hne)

theorem of_harmless (hs : Harmless bad site) (bs : List UInt8) :
    Guarded bad L (tagged site bs) p := by
  refine of_calm fun M hM hne => ?_
  have hlast : M.getLast hne ∈ tagged site bs := hM.subset (List.getLast_mem hne)
  obtain ⟨v, -, hv⟩ := List.mem_map.mp hlast
  rw [← List.dropLast_append_getLast hne, ← hv, ← List.append_assoc]
  exact hs _ _

theorem left {β : Type} {q : KProc β} (h : Guarded bad L (R ++ R') p) (hR' : R' ≠ []) :
    Guarded bad L R q := by
  intro M hM hne hbad
  obtain ⟨rfl, -⟩ := h M (hM.trans (List.prefix_append R R')) hne hbad
  have hlen := hM.length_le
  have hpos := List.length_pos_iff.mpr hR'
  rw [List.length_append] at hlen
  omega

theorem right (h : Guarded bad L (R ++ R') p) : Guarded bad (L ++ R) R' p := by
  intro M hM hne hbad
  rw [List.append_assoc] at hbad
  obtain ⟨heq, hp⟩ := h (R ++ M) ((List.prefix_append_right_inj R).mpr hM) (by simp [hne]) hbad
  exact ⟨List.append_cancel_left heq, hp⟩

theorem first (h : Guarded bad L (e :: R) p) (hR : R ≠ []) : ¬ bad (L ++ [e]) := by
  intro hbad
  obtain ⟨heq, -⟩ := h [e] (by simp) (by simp) hbad
  exact hR (List.cons.inj heq).2.symm

theorem tail (h : Guarded bad L (e :: R) p) : Guarded bad (L ++ [e]) R p :=
  right (R := [e]) h

theorem last (h : Guarded bad L [e] p) (hbad : bad (L ++ [e])) : p = .fault :=
  (h [e] List.prefix_rfl (by simp) hbad).2

end Guarded

theorem rxByte_then {k : UInt8 → KProc α} (hc : ∀ v, Guarded bad L [(site, some v)] (k v))
    (h : ∀ v, Always bad ok (L ++ [(site, some v)]) (k v) Q) :
    Always bad ok L (rxByte site >>= k) Q :=
  .recv (fun v => (hc v).last) h

theorem rxU16_then {k : UInt16 → KProc α}
    (hc : ∀ v, Guarded bad L (tagged site (bytes16 v)) (k v))
    (h : ∀ v, Always bad ok (L ++ tagged site (bytes16 v)) (k v) Q) :
    Always bad ok L (rxU16 site >>= k) Q := by
  have hc' : ∀ b0 b1, Guarded bad L [(site, some b0), (site, some b1)] (k (word16 b0 b1)) := by
    intro b0 b1
    simpa [bytes16_word16] using hc (word16 b0 b1)
  refine .recv (fun b0 hbad => absurd hbad ((hc' b0 0).first (by simp))) fun b0 =>
    .recv (fun b1 => (hc' b0 b1).tail.last) fun b1 => ?_
  have hlog : L ++ tagged site (bytes16 (word16 b0 b1)) =
      L ++ [(site, some b0)] ++ [(site, some b1)] := by
    simp [bytes16_word16]
  exact hlog ▸ h (word16 b0 b1)

theorem rxU32_then {k : UInt32 → KProc α}
    (hc : ∀ v, Guarded bad L (tagged site (bytes32 v)) (k v))
    (h : ∀ v, Always bad ok (L ++ tagged site (bytes32 v)) (k v) Q) :
    Always bad ok L (rxU32 site >>= k) Q := by
  have hc' : ∀ b0 b1 b2 b3, Guarded bad L [(site, some b0), (site, some b1), (site, some b2),
      (site, some b3)] (k (word32 b0 b1 b2 b3)) := by
    intro b0 b1 b2 b3
    simpa [bytes32_word32] using hc (word32 b0 b1 b2 b3)
  refine .recv (fun b0 hbad => absurd hbad ((hc' b0 0 0 0).first (by simp))) fun b0 =>
    .recv (fun b1 hbad => absurd hbad ((hc' b0 b1 0 0).tail.first (by simp))) fun b1 =>
    .recv (fun b2 hbad => absurd hbad ((hc' b0 b1 b2 0).tail.tail.first (by simp))) fun b2 =>
    .recv (fun b3 => (hc' b0 b1 b2 b3).tail.tail.tail.last) fun b3 => ?_
  have hlog : L ++ tagged site (bytes32 (word32 b0 b1 b2 b3)) =
      L ++ [(site, some b0)] ++ [(site, some b1)] ++ [(site, some b2)] ++ [(site, some b3)] := by
    simp [bytes32_word32]
  exact hlog ▸ h (word32 b0 b1 b2 b3)

theorem rxI64_then {k : Int64 → KProc α}
    (hc : ∀ v : Int64, Guarded bad L (tagged site (bytes64 v.toUInt64)) (k v))
    (h : ∀ v : Int64, Always bad ok (L ++ tagged site (bytes64 v.toUInt64)) (k v) Q) :
    Always bad ok L (rxI64 site >>= k) Q := by
  have hc' : ∀ b0 b1 b2 b3 b4 b5 b6 b7, Guarded bad L [(site, some b0), (site, some b1),
      (site, some b2), (site, some b3), (site, some b4), (site, some b5), (site, some b6),
      (site, some b7)] (k (word64 b0 b1 b2 b3 b4 b5 b6 b7).toInt64) := by
    intro b0 b1 b2 b3 b4 b5 b6 b7
    simpa [bytes64_word64] using hc (word64 b0 b1 b2 b3 b4 b5 b6 b7).toInt64
  refine .recv (fun b0 hbad => absurd hbad ((hc' b0 0 0 0 0 0 0 0).first (by simp))) fun b0 =>
    .recv (fun b1 hbad => absurd hbad ((hc' b0 b1 0 0 0 0 0 0).tail.first (by simp))) fun b1 =>
    .recv (fun b2 hbad => absurd hbad ((hc' b0 b1 b2 0 0 0 0 0).tail.tail.first (by simp)))
      fun b2 =>
    .recv (fun b3 hbad => absurd hbad ((hc' b0 b1 b2 b3 0 0 0 0).tail.tail.tail.first (by simp)))
      fun b3 =>
    .recv (fun b4 hbad => absurd hbad
      ((hc' b0 b1 b2 b3 b4 0 0 0).tail.tail.tail.tail.first (by simp))) fun b4 =>
    .recv (fun b5 hbad => absurd hbad
      ((hc' b0 b1 b2 b3 b4 b5 0 0).tail.tail.tail.tail.tail.first (by simp))) fun b5 =>
    .recv (fun b6 hbad => absurd hbad
      ((hc' b0 b1 b2 b3 b4 b5 b6 0).tail.tail.tail.tail.tail.tail.first (by simp))) fun b6 =>
    .recv (fun b7 => (hc' b0 b1 b2 b3 b4 b5 b6 b7).tail.tail.tail.tail.tail.tail.tail.last)
      fun b7 => ?_
  have hlog : L ++ tagged site (bytes64 (word64 b0 b1 b2 b3 b4 b5 b6 b7).toInt64.toUInt64) =
      L ++ [(site, some b0)] ++ [(site, some b1)] ++ [(site, some b2)] ++ [(site, some b3)] ++
        [(site, some b4)] ++ [(site, some b5)] ++ [(site, some b6)] ++ [(site, some b7)] := by
    simp [bytes64_word64]
  exact hlog ▸ h (word64 b0 b1 b2 b3 b4 b5 b6 b7).toInt64

theorem rxTid_then {k : Tid → KProc α}
    (hc : ∀ t, Guarded bad L (tagged .tid (TupleSerializer.putTid t)) (k t))
    (h : ∀ t, Always bad ok (L ++ tagged .tid (TupleSerializer.putTid t)) (k t) Q) :
    Always bad ok L (rxTid >>= k) Q := by
  have hc' : ∀ blkno offno, Guarded bad L (tagged .tid (bytes32 blkno) ++
      tagged .tid (bytes16 offno)) (k ⟨blkno, offno⟩) := by
    intro blkno offno
    rw [← tagged_append]
    exact hc ⟨blkno, offno⟩
  simp only [rxTid, bind_assoc, pure_bind]
  refine rxU32_then (fun blkno => (hc' blkno 0).left (by simp [bytes16])) fun blkno =>
    rxU16_then (fun offno => (hc' blkno offno).right) fun offno => ?_
  simpa [TupleSerializer.putTid, TupleSerializer.putU32, TupleSerializer.putU16] using
    h ⟨blkno, offno⟩

/-- **Whatever bytes arrive, they are a tuple of the session's width.** -/
theorem rxTuple_then {keytype : UInt8} {k : InputTuple → KProc α}
    (hc : ∀ t, Guarded bad L (tupleReads (KeyType.ofCode keytype) t)
      (k ((KeyType.ofCode keytype).wire t)))
    (h : ∀ t, Always bad ok (L ++ tupleReads (KeyType.ofCode keytype) t)
      (k ((KeyType.ofCode keytype).wire t)) Q) :
    Always bad ok L (rxTuple keytype >>= k) Q := by
  have htid : ∀ t : Tid, tagged Site.tid (TupleSerializer.putTid t) ≠ [] := by
    intro t
    simp [TupleSerializer.putTid, TupleSerializer.putU32, bytes32]
  simp only [rxTuple, rxKey, bind_assoc, pure_bind]
  by_cases hw : keytype = KeyType.int64.code
  · have hof : KeyType.ofCode keytype = .int64 := if_pos hw
    rw [hof] at hc h
    rw [if_pos hw]
    refine rxI64_then (fun key => (hc (key, default)).left (htid _)) fun key =>
      rxTid_then (fun tid => (hc (key, tid)).right) fun tid => ?_
    have ht := h (key, tid)
    simpa [tupleReads, TupleSerializer.putI64, KeyType.wire, KeyType.wireKey] using ht
  · have hof : KeyType.ofCode keytype = .int32 := if_neg hw
    have hkey : ∀ v : UInt32, v.toInt32.toInt64.toInt32 = v.toInt32 := fun v =>
      Int32.toInt32_toInt64 _
    have hc' : ∀ (v : UInt32) (tid : Tid), Guarded bad L (tagged .key (bytes32 v) ++
        tagged .tid (TupleSerializer.putTid tid)) (k (v.toInt32.toInt64, tid)) := by
      intro v tid
      have ht := hc (v.toInt32.toInt64, tid)
      simp only [hof, tupleReads, TupleSerializer.putI32, TupleSerializer.putU32, KeyType.wire,
        KeyType.wireKey, InputTuple.key, InputTuple.tid, hkey] at ht
      exact ht
    rw [if_neg hw]
    simp only [bind_assoc, pure_bind]
    refine rxU32_then (fun v => (hc' v default).left (htid _)) fun v =>
      rxTid_then (fun tid => (hc' v tid).right) fun tid => ?_
    have ht := h (v.toInt32.toInt64, tid)
    simp only [hof, tupleReads, TupleSerializer.putI32, TupleSerializer.putU32, KeyType.wire,
      KeyType.wireKey, InputTuple.key, InputTuple.tid, hkey] at ht
    rw [List.append_assoc]
    exact ht

theorem rxDiscardTuple_then {keytype : UInt8} {k : Unit → KProc α}
    (hc : ∀ t, Guarded bad L (tupleReads (KeyType.ofCode keytype) t) (k ()))
    (h : ∀ t, Always bad ok (L ++ tupleReads (KeyType.ofCode keytype) t) (k ()) Q) :
    Always bad ok L (rxDiscardTuple keytype >>= k) Q := by
  have hsame : rxDiscardTuple keytype >>= k = rxTuple keytype >>= fun _ => k () := by
    simp only [rxDiscardTuple, rxTuple, bind_assoc, pure_bind]
  rw [hsame]
  exact rxTuple_then hc h

theorem rxConfigure_then {k : ConfigurePayload → KProc α} (hs : Harmless bad .config)
    (h : ∀ p, Always bad ok (L ++ tagged .config (configureBytes p)) (k p) Q) :
    Always bad ok L (rxConfigure >>= k) Q := by
  simp only [rxConfigure, bind_assoc, pure_bind]
  refine rxByte_then (fun _ => .of_harmless hs [_]) fun algorithm =>
    rxByte_then (fun _ => .of_harmless hs [_]) fun keyType =>
    rxU16_then (fun _ => .of_harmless hs _) fun rxBufSlots =>
    rxU32_then (fun _ => .of_harmless hs _) fun innerCount =>
    rxU32_then (fun _ => .of_harmless hs _) fun outerCount =>
    rxByte_then (fun _ => .of_harmless hs [_]) fun sessionId => ?_
  simpa [configureBytes] using
    h { algorithm, keyType, rxBufSlots, innerCount, outerCount, sessionId }

theorem put_then {f : TxFrame} {k : Unit → KProc α} (hf : ok L f)
    (h : Always bad ok L (k ()) Q) : Always bad ok L (Proc.put f >>= k) Q :=
  Always.bind (.put hf rfl) fun M _ (hM : M = L) => hM ▸ h

theorem require_then {c : Prop} [Decidable c] {k : Unit → KProc α} (hbad : ¬ c → bad L)
    (h : c → Always bad ok L (k ()) Q) : Always bad ok L (Proc.require c >>= k) Q :=
  Always.bind (.require hbad fun hc => And.intro rfl hc) fun M _ (hM : M = L ∧ c) => hM.1 ▸ h hM.2

end FpgaHashJoin
