import FpgaHashJoin.Kernel.Framing

/-!
# Frames of the host, read by the kernel

The serializer of the host and the reads of the kernel are two programs. `rxFrame` puts
together what the kernel reads for one frame: the header, then the fields of CONFIGURE or the
tuples of a batch in the width of the last CONFIGURE. On frames that the serializer has
written it returns what was serialized and consumes exactly the bytes of the frame, so a
sequence of frames is read frame by frame.
-/

namespace FpgaHashJoin

open Process

/-- The tuples in the receive buffers. -/
def Session.bufferedTuples (s : Session) (count : Nat) : List InputTuple :=
  (List.range count).map fun i => (s.rxKeyBuf i, s.rxTidBuf i)

/-- The kind of DATA frame that the message type byte announces. -/
def DataMsg.ofCode (msgType : UInt8) : DataMsg :=
  if msgType = MsgType.innerData.code then .inner else .outer

@[simp] theorem DataMsg.ofCode_type (msg : DataMsg) : DataMsg.ofCode msg.type.code = msg := by
  cases msg <;> rfl

/-- The message type, the count and the content of a frame as the kernel reads them. -/
def rxFrame (s : Session) : KProc ((UInt8 × UInt16 × HostFrame) × Session) := do
  let msgType ← rxByte .msgType
  let count ← rxU16 .count
  if msgType = MsgType.configure.code then do
    let p ← rxConfigure
    return ((msgType, count, .configure p), { s with keytype := p.keyType })
  else do
    let s ← rxBatch count.toNat s
    return ((msgType, count,
      .data (DataMsg.ofCode msgType) (KeyType.ofCode s.keytype) (s.bufferedTuples count.toNat)), s)

/-- A number of frames, one after the other. -/
def rxFrames : Nat → Session → KProc (List (UInt8 × UInt16 × HostFrame))
  | 0, _ => return []
  | n + 1, s => do
    let (f, s) ← rxFrame s
    let fs ← rxFrames n s
    return f :: fs

/-- What the serializer can produce: CONFIGURE frames, and DATA frames of one tuple up to a
full batch in the configured width, with keys that the width can hold. -/
def Serialized : KeyType → List HostFrame → Prop
  | _, [] => True
  | _, .configure p :: fs => Serialized (KeyType.ofCode p.keyType) fs
  | w, .data _ w' ts :: fs =>
    (w' = w ∧ ts ≠ [] ∧ ts.length ≤ rxBufTuples ∧ ∀ t ∈ ts, w.InRange t.key) ∧ Serialized w fs
  | _, .reset :: _ => False

theorem Session.Buffered.tuples_eq {s : Session} {ts : List InputTuple} (h : s.Buffered ts) :
    s.bufferedTuples ts.length = ts := by
  apply List.ext_getElem
  · simp [bufferedTuples]
  · intro i hi hi'
    obtain ⟨hkey, htid⟩ := h i ts[i] (List.getElem?_eq_getElem hi')
    simp [bufferedTuples, hkey, htid]

theorem rxHeader_runs (type : MsgType) (count : Nat) {α : Type} {f : UInt8 → UInt16 → KProc α}
    {ins : List (Site × Option UInt8)} {q : KProc α}
    (h : Runs (f type.code (UInt16.ofNat count)) ins [] q) :
    Runs (rxByte .msgType >>= fun msgType => rxU16 .count >>= f msgType)
      (headerReads type count ++ ins) [] q := by
  have hread : Runs (rxByte .msgType) [(.msgType, some type.code)] [] (.ret type.code) :=
    Runs.read _ _
  exact hread.seq_reads ((rxU16_runs .count _).seq_reads h)

theorem rxFrame_configure (s : Session) (p : ConfigurePayload) :
    Runs (rxFrame s) (HostFrame.configure p).reads []
      (.ret ((MsgType.configure.code, 1, .configure p), { s with keytype := p.keyType })) := by
  apply rxHeader_runs
  rw [if_pos rfl]
  exact (rxConfigure_runs p).seq_pure _

theorem rxFrame_data (s : Session) (msg : DataMsg) {ts : List InputTuple}
    (hlen : ts.length ≤ rxBufTuples)
    (hrange : ∀ t ∈ ts, (KeyType.ofCode s.keytype).InRange t.key) :
    ∃ s', s'.keytype = s.keytype ∧
      Runs (rxFrame s) (HostFrame.data msg (KeyType.ofCode s.keytype) ts).reads []
        (.ret ((msg.type.code, UInt16.ofNat ts.length,
          .data msg (KeyType.ofCode s.keytype) ts), s')) := by
  obtain ⟨keys, tids, hrun, hbuf⟩ := rxBatch_runs rfl hlen
  rw [KeyType.map_wire_eq hrange] at hbuf
  refine ⟨{ s with rxKeyBuf := keys, rxTidBuf := tids }, rfl, rxHeader_runs _ _ ?_⟩
  rw [if_neg (mt MsgType.code_inj.mp (by cases msg <;> decide)), toNat_frameCount hlen]
  have hall := hrun.seq_pure fun s' : Session =>
    ((msg.type.code, UInt16.ofNat ts.length,
      HostFrame.data (DataMsg.ofCode msg.type.code) (KeyType.ofCode s'.keytype)
        (s'.bufferedTuples ts.length)), s')
  simpa only [hbuf.tuples_eq, DataMsg.ofCode_type] using hall

/-- **What the host serializes the kernel reads back, frame by frame and byte by byte.** -/
theorem rxFrames_serialized (fs : List HostFrame) (s : Session)
    (h : Serialized (KeyType.ofCode s.keytype) fs) :
    ∃ ins, Runs (rxFrames fs.length s) ins []
        (.ret (fs.map fun f => (f.type.code, UInt16.ofNat f.count, f))) ∧
      ins.map Prod.snd = (fs.flatMap HostFrame.bytes).map some := by
  induction fs generalizing s with
  | nil => exact ⟨[], .refl _, rfl⟩
  | cons f fs ih =>
    -- one frame leaves the reader at the next one, in the width that is then configured
    obtain ⟨s', hframe, hrest⟩ : ∃ s', Runs (rxFrame s) f.reads []
        (.ret ((f.type.code, UInt16.ofNat f.count, f), s')) ∧
        Serialized (KeyType.ofCode s'.keytype) fs := by
      match f, h with
      | .configure p, h => exact ⟨_, rxFrame_configure s p, h⟩
      | .data msg w ts, ⟨⟨hw, _, hlen, hrange⟩, hfs⟩ =>
        subst hw
        obtain ⟨s', hkey, hrun⟩ := rxFrame_data s msg hlen hrange
        exact ⟨s', hrun, by rwa [hkey]⟩
    obtain ⟨ins, hrun, hins⟩ := ih s' hrest
    refine ⟨f.reads ++ ins, hframe.seq_reads (hrun.seq_pure _), ?_⟩
    rw [List.map_append, f.map_snd_reads, hins, List.flatMap_cons, List.map_append]

theorem rxFrames_serialized_negativeKey :
    Serialized .int32 [.data .inner .int32 [(-2, ⟨3, 4⟩)]] ∧
      ∃ ins, Runs (rxFrames 1 default) ins []
          (.ret [(2, 1, HostFrame.data .inner .int32 [(-2, ⟨3, 4⟩)])]) ∧
        ins.map Prod.snd =
          ([2, 1, 0, 0xFE, 0xFF, 0xFF, 0xFF, 3, 0, 0, 0, 4, 0] : List UInt8).map some := by
  have h : Serialized .int32 [.data .inner .int32 [(-2, ⟨3, 4⟩)]] :=
    ⟨⟨rfl, by decide, by decide, by decide⟩, trivial⟩
  exact ⟨h, rxFrames_serialized [.data .inner .int32 [(-2, ⟨3, 4⟩)]] default h⟩

end FpgaHashJoin
