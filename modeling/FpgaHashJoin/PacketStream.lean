import Mathlib.Tactic

/-!
# Streams of packets

Items with an end-of-packet flag. A packet is a list of items whose last one, and no other,
carries the flag.
-/

namespace PacketStream

variable {α : Type} {last : α → Bool}

/-- The packets of a stream, and the beginning of one that has not ended. -/
def split (last : α → Bool) : List α → List (List α)
  | [] => []
  | x :: xs =>
    if last x then [x] :: split last xs
    else
      match split last xs with
      | [] => [[x]]
      | p :: ps => (x :: p) :: ps

/-- The number of items since the last end of a packet. -/
def pending (last : α → Bool) (xs : List α) : Nat := (xs.reverse.takeWhile (!last ·)).length

def IsPacket (last : α → Bool) (p : List α) : Prop :=
  ∃ front x, p = front ++ [x] ∧ last x = true ∧ ∀ y ∈ front, last y = false

theorem IsPacket.single {x : α} (h : last x = true) : IsPacket last [x] :=
  ⟨[], x, rfl, h, by simp⟩

/-- Unflagged items in front of a packet. -/
theorem IsPacket.append {front p : List α} (h : IsPacket last p)
    (hfront : ∀ y ∈ front, last y = false) : IsPacket last (front ++ p) := by
  obtain ⟨front', x, rfl, hx, hquiet⟩ := h
  refine ⟨front ++ front', x, (List.append_assoc _ _ _).symm, hx, ?_⟩
  intro y hy
  rcases List.mem_append.mp hy with hy | hy
  · exact hfront y hy
  · exact hquiet y hy

theorem flatten_split (last : α → Bool) (xs : List α) : (split last xs).flatten = xs := by
  induction xs with
  | nil => rfl
  | cons x xs ih =>
    rw [split]
    split
    · rw [List.flatten_cons, ih]
      rfl
    · split
      · next h =>
        rw [h] at ih
        rw [← ih]
        rfl
      · next p ps h =>
        rw [h] at ih
        rw [← ih]
        rfl

theorem split_append_of_isPacket {p : List α} (h : IsPacket last p) (xs : List α) :
    split last (p ++ xs) = p :: split last xs := by
  obtain ⟨front, x, rfl, hx, hquiet⟩ := h
  induction front with
  | nil => simp [split, hx]
  | cons y front ih =>
    have hy : last y = false := hquiet y List.mem_cons_self
    have ih := ih fun z hz => hquiet z (List.mem_cons_of_mem _ hz)
    simp only [List.cons_append, split, hy, Bool.false_eq_true, if_false, ih]

theorem split_flatten_append {ps : List (List α)} (h : ∀ p ∈ ps, IsPacket last p) (xs : List α) :
    split last (ps.flatten ++ xs) = ps ++ split last xs := by
  induction ps with
  | nil => rfl
  | cons p ps ih =>
    rw [List.flatten_cons, List.append_assoc, split_append_of_isPacket (h p List.mem_cons_self),
      ih fun q hq => h q (List.mem_cons_of_mem _ hq)]
    rfl

/-- **A concatenation of packets is split where they were put together.** -/
theorem split_flatten {ps : List (List α)} (h : ∀ p ∈ ps, IsPacket last p) :
    split last ps.flatten = ps := by
  have hall := split_flatten_append h []
  rwa [List.append_nil, split, List.append_nil] at hall

/-- The beginning of a packet is one piece. -/
theorem split_quiet {xs : List α} (hne : xs ≠ []) (h : ∀ x ∈ xs, last x = false) :
    split last xs = [xs] := by
  induction xs with
  | nil => exact absurd rfl hne
  | cons x xs ih =>
    rw [split, h x List.mem_cons_self, if_neg Bool.false_ne_true]
    cases xs with
    | nil => rfl
    | cons y ys => rw [ih (by simp) fun z hz => h z (List.mem_cons_of_mem _ hz)]

/-- An item behind whole packets begins a new one. -/
theorem split_first {ps : List (List α)} (h : ∀ p ∈ ps, IsPacket last p) (x : α) :
    split last (ps.flatten ++ [x]) = ps ++ [[x]] := by
  rw [split_flatten_append h]
  cases hx : last x with
  | true => rw [split, if_pos hx, split]
  | false => rw [split, if_neg (by simp [hx]), split]

/-- An item behind the beginning of a packet belongs to this packet. -/
theorem split_next {ps : List (List α)} (h : ∀ p ∈ ps, IsPacket last p) {cur : List α}
    (hcur : ∀ y ∈ cur, last y = false) (x : α) :
    split last (ps.flatten ++ (cur ++ [x])) = ps ++ [cur ++ [x]] := by
  rw [split_flatten_append h]
  cases hx : last x with
  | true =>
    have hpacket : IsPacket last (cur ++ [x]) := ⟨cur, x, rfl, hx, hcur⟩
    have hsplit := split_append_of_isPacket hpacket []
    rw [List.append_nil] at hsplit
    rw [hsplit]
    rfl
  | false =>
    rw [split_quiet (by simp)]
    intro y hy
    rcases List.mem_append.mp hy with hy | hy
    · exact hcur y hy
    · rw [List.mem_singleton.mp hy, hx]

theorem ne_nil_of_mem_split {xs p : List α} (h : p ∈ split last xs) : p ≠ [] := by
  induction xs generalizing p with
  | nil => cases h
  | cons x xs ih =>
    rw [split] at h
    split at h
    · rcases List.mem_cons.mp h with rfl | h
      · simp
      · exact ih h
    · split at h
      · rw [List.mem_singleton.mp h]
        simp
      · next q qs hsplit =>
        rcases List.mem_cons.mp h with rfl | h
        · simp
        · exact ih (hsplit ▸ List.mem_cons_of_mem _ h)

/-- Only the last piece may be open. -/
theorem isPacket_of_split {xs p q : List α} {ps : List (List α)}
    (h : split last xs = p :: q :: ps) : IsPacket last p := by
  induction xs generalizing p with
  | nil => cases h
  | cons x xs ih =>
    rw [split] at h
    split at h
    · next hx =>
      obtain ⟨rfl, -⟩ := List.cons.inj h
      exact IsPacket.single hx
    · next hx =>
      split at h
      · cases h
      · next p' ps' hsplit =>
        obtain ⟨rfl, rfl⟩ := List.cons.inj h
        have hquiet : ∀ y ∈ [x], last y = false := by simpa using hx
        exact (ih hsplit).append hquiet

theorem filter_of_isPacket {p : List α} (h : IsPacket last p) :
    ∃ x, p.getLast? = some x ∧ p.filter last = [x] := by
  obtain ⟨front, x, rfl, hx, hquiet⟩ := h
  refine ⟨x, List.getLast?_concat, ?_⟩
  have hnone : front.filter last = [] := by
    rw [List.filter_eq_nil_iff]
    intro y hy
    rw [hquiet y hy]
    exact Bool.false_ne_true
  rw [List.filter_append, hnone, List.nil_append, List.filter_singleton, hx]
  rfl

/-- **The flag number `k` ends the packet number `k`.** -/
theorem getElem?_filter_of_split {xs q : List α} {k : Nat} (hk : (split last xs)[k]? = some q)
    (hq : IsPacket last q) : (xs.filter last)[k]? = q.getLast? := by
  induction k generalizing xs with
  | zero =>
    cases hsplit : split last xs with
    | nil =>
      rw [hsplit] at hk
      cases hk
    | cons p ps =>
      rw [hsplit] at hk
      obtain rfl := Option.some.inj hk
      obtain ⟨x, hlast, hfilter⟩ := filter_of_isPacket hq
      rw [← flatten_split last xs, hsplit, List.flatten_cons, List.filter_append, hfilter, hlast]
      rfl
  | succ k ih =>
    cases hsplit : split last xs with
    | nil =>
      rw [hsplit] at hk
      cases hk
    | cons p ps =>
      rw [hsplit, List.getElem?_cons_succ] at hk
      have hp : IsPacket last p := by
        cases ps with
        | nil => cases hk
        | cons p' ps => exact isPacket_of_split hsplit
      have hxs : xs = p ++ ps.flatten := by rw [← flatten_split last xs, hsplit, List.flatten_cons]
      have hrest : split last ps.flatten = ps := by
        rw [hxs, split_append_of_isPacket hp] at hsplit
        exact (List.cons.inj hsplit).2
      obtain ⟨x, -, hfilter⟩ := filter_of_isPacket hp
      rw [hxs, List.filter_append, hfilter, List.singleton_append, List.getElem?_cons_succ]
      exact ih (hrest.symm ▸ hk)

theorem countP_of_quiet {xs : List α} (h : ∀ x ∈ xs, last x = false) : xs.countP last = 0 := by
  rw [List.countP_eq_zero]
  intro x hx
  rw [h x hx]
  exact Bool.false_ne_true

theorem countP_of_isPacket {p : List α} (h : IsPacket last p) : p.countP last = 1 := by
  obtain ⟨front, x, rfl, hx, hquiet⟩ := h
  rw [List.countP_append, countP_of_quiet hquiet, Nat.zero_add, List.countP_singleton, if_pos hx]

/-- Every packet has one flag. -/
theorem countP_flatten_of_isPacket {ps : List (List α)} (h : ∀ p ∈ ps, IsPacket last p) :
    ps.flatten.countP last = ps.length := by
  induction ps with
  | nil => rfl
  | cons p ps ih =>
    rw [List.flatten_cons, List.countP_append, countP_of_isPacket (h p List.mem_cons_self),
      ih fun q hq => h q (List.mem_cons_of_mem _ hq), List.length_cons, Nat.add_comm]

/-- A packet does not begin another one. -/
theorem eq_of_isPacket_of_isPrefix {p q : List α} (hp : IsPacket last p) (hq : IsPacket last q)
    (h : p <+: q) : p = q := by
  obtain ⟨rest, rfl⟩ := h
  have hcount := countP_of_isPacket hq
  rw [List.countP_append, countP_of_isPacket hp] at hcount
  obtain ⟨front, x, heq, hx, -⟩ := hq
  rcases List.eq_nil_or_concat rest with rfl | ⟨rest', y, rfl⟩
  · rw [List.append_nil]
  · rw [List.concat_eq_append, ← List.append_assoc] at heq
    obtain ⟨-, hy⟩ := List.append_inj' heq rfl
    obtain rfl := List.singleton_injective hy
    rw [List.concat_eq_append, List.countP_append, List.countP_singleton, if_pos hx] at hcount
    omega

@[simp] theorem pending_nil : pending last [] = 0 := rfl

theorem pending_snoc_of_last {x : α} (xs : List α) (h : last x = true) :
    pending last (xs ++ [x]) = 0 := by
  simp [pending, h]

theorem pending_snoc {x : α} (xs : List α) (h : last x = false) :
    pending last (xs ++ [x]) = pending last xs + 1 := by
  simp [pending, h]

theorem pending_append_of_isPacket {p : List α} (h : IsPacket last p) (xs : List α) :
    pending last (p ++ xs) = pending last xs := by
  obtain ⟨front, x, rfl, hx, -⟩ := h
  induction xs using List.reverseRecOn with
  | nil => rw [List.append_nil, pending_snoc_of_last _ hx, pending_nil]
  | append_singleton xs y ih =>
    rw [← List.append_assoc]
    cases hy : last y with
    | true => rw [pending_snoc_of_last _ hy, pending_snoc_of_last _ hy]
    | false => rw [pending_snoc _ hy, pending_snoc _ hy, ih]

theorem pending_flatten_append {ps : List (List α)} (h : ∀ p ∈ ps, IsPacket last p)
    (xs : List α) : pending last (ps.flatten ++ xs) = pending last xs := by
  induction ps with
  | nil => rfl
  | cons p ps ih =>
    rw [List.flatten_cons, List.append_assoc, pending_append_of_isPacket (h p List.mem_cons_self),
      ih fun q hq => h q (List.mem_cons_of_mem _ hq)]

theorem pending_quiet {xs : List α} (h : ∀ x ∈ xs, last x = false) :
    pending last xs = xs.length := by
  induction xs using List.reverseRecOn with
  | nil => rfl
  | append_singleton xs x ih =>
    rw [pending_snoc _ (h x (by simp)), ih fun y hy => h y (by simp [hy]), List.length_append,
      List.length_singleton]

theorem pending_le_length (xs : List α) : pending last xs ≤ xs.length := by
  unfold pending
  exact (List.takeWhile_prefix _).length_le.trans (List.length_reverse).le

/-- **Whatever part of a stream has been seen, less than a packet is open.** -/
theorem pending_lt {n : Nat} (hn : 0 < n) {ps : List (List α)}
    (h : ∀ p ∈ ps, IsPacket last p ∧ p.length ≤ n) {xs : List α} (hxs : xs <+: ps.flatten) :
    pending last xs < n := by
  induction ps generalizing xs with
  | nil =>
    rw [List.flatten_nil, List.prefix_nil] at hxs
    rw [hxs, pending_nil]
    exact hn
  | cons p ps ih =>
    obtain ⟨hp, hlen⟩ := h p List.mem_cons_self
    have ih := @ih fun q hq => h q (List.mem_cons_of_mem _ hq)
    rw [List.flatten_cons] at hxs
    by_cases hshort : xs.length < p.length
    · exact (pending_le_length xs).trans_lt (hshort.trans_le hlen)
    · obtain ⟨ys, rfl⟩ : p <+: xs :=
        List.prefix_of_prefix_length_le (List.prefix_append _ _) hxs (not_lt.mp hshort)
      rw [pending_append_of_isPacket hp]
      exact ih ((List.prefix_append_right_inj p).mp hxs)

/-! ## Merged streams -/

section Merged

variable {σ : Type} [DecidableEq σ]

/-- The packets of one source. -/
def packetsOf (i : σ) (ps : List (σ × List α)) : List (List α) :=
  (ps.filter fun d => d.1 = i).map Prod.snd

theorem packetsOf_append (i : σ) (ps qs : List (σ × List α)) :
    packetsOf i (ps ++ qs) = packetsOf i ps ++ packetsOf i qs := by
  simp [packetsOf]

theorem packetsOf_singleton (i j : σ) (p : List α) :
    packetsOf i [(j, p)] = if j = i then [p] else [] := by
  by_cases h : j = i <;> simp [packetsOf, h]

theorem mem_of_mem_packetsOf {i : σ} {ps : List (σ × List α)} {p : List α}
    (h : p ∈ packetsOf i ps) : (i, p) ∈ ps := by
  obtain ⟨d, hd, rfl⟩ := List.mem_map.mp h
  obtain ⟨hmem, hi⟩ := List.mem_filter.mp hd
  rw [← of_decide_eq_true hi]
  exact hmem

/-- A stream that takes turns between sources at the ends of packets: `owner` is the source of the
packet that is open. -/
def Merged (last : α → Bool) (out : List α) (src : σ → List α) (owner : Option σ) : Prop :=
  ∃ (done : List (σ × List α)) (cur : List α), out = (done.map Prod.snd).flatten ++ cur ∧
    (∀ d ∈ done, IsPacket last d.2) ∧ (∀ x ∈ cur, last x = false) ∧ (owner = none ↔ cur = []) ∧
    ∀ i, src i = (packetsOf i done).flatten ++ if owner = some i then cur else []

theorem Merged.nil (last : α → Bool) : Merged last [] (fun _ : σ => []) none :=
  ⟨[], [], rfl, by simp, by simp, by simp, by simp [packetsOf]⟩

/-- An item of the source that may go on. -/
theorem Merged.push {out : List α} {src src' : σ → List α} {owner : Option σ} {i : σ} {x : α}
    (h : Merged last out src owner) (hturn : owner = none ∨ owner = some i)
    (hsrc : ∀ j, src' j = src j ++ if j = i then [x] else []) :
    Merged last (out ++ [x]) src' (if last x then none else some i) := by
  obtain ⟨done, cur, hout, hdone, hquiet, hopen, hsplit⟩ := h
  -- what is open belongs to the source
  have hcur : ∀ j, (if owner = some j then cur else []) = if j = i then cur else [] := by
    intro j
    rcases hturn with hnone | hsome
    · rw [hopen.mp hnone, ite_self, ite_self]
    · rw [hsome]
      by_cases hj : j = i
      · rw [hj, if_pos rfl, if_pos rfl]
      · rw [if_neg (fun hs => hj (Option.some.inj hs).symm), if_neg hj]
  have hsrc' : ∀ j, src' j = (packetsOf j done).flatten ++ if j = i then cur ++ [x] else [] := by
    intro j
    rw [hsrc, hsplit, hcur, List.append_assoc]
    by_cases hj : j = i
    · rw [if_pos hj, if_pos hj, if_pos hj]
    · rw [if_neg hj, if_neg hj, if_neg hj, List.append_nil]
  cases hx : last x with
  | true =>
    refine ⟨done ++ [(i, cur ++ [x])], [], ?_, ?_, by simp, by simp, ?_⟩
    · rw [hout]
      simp
    · intro d hd
      rcases List.mem_append.mp hd with hd | hd
      · exact hdone d hd
      · rw [List.mem_singleton.mp hd]
        exact ⟨cur, x, rfl, hx, hquiet⟩
    · intro j
      rw [hsrc', packetsOf_append, packetsOf_singleton, List.flatten_append, ite_self, List.append_nil]
      by_cases hj : j = i
      · rw [if_pos hj, if_pos hj.symm, List.flatten_singleton]
      · rw [if_neg hj, if_neg (Ne.symm hj), List.flatten_nil]
  | false =>
    refine ⟨done, cur ++ [x], ?_, hdone, ?_, by simp, ?_⟩
    · rw [hout, List.append_assoc]
    · intro y hy
      rcases List.mem_append.mp hy with hy | hy
      · exact hquiet y hy
      · rw [List.mem_singleton.mp hy]
        exact hx
    · intro j
      rw [hsrc', if_neg Bool.false_ne_true]
      by_cases hj : j = i
      · rw [if_pos hj, hj, if_pos rfl]
      · rw [if_neg hj, if_neg (fun hs => hj (Option.some.inj hs).symm)]

/-- **The packets of a merged stream are the packets of its sources**, each of them as a whole, and
those of one source in its order. -/
theorem Merged.packets {out : List α} {src : σ → List α} {owner : Option σ}
    (h : Merged last out src owner) :
    ∃ ps : List (σ × List α), ps.map Prod.snd = split last out ∧
      ∀ i, split last (src i) = packetsOf i ps := by
  obtain ⟨done, cur, hout, hdone, hquiet, hopen, hsplit⟩ := h
  have hpackets : ∀ p ∈ done.map Prod.snd, IsPacket last p := by
    intro p hp
    obtain ⟨d, hd, rfl⟩ := List.mem_map.mp hp
    exact hdone d hd
  have hof : ∀ i, ∀ p ∈ packetsOf i done, IsPacket last p :=
    fun i p hp => hdone (i, p) (mem_of_mem_packetsOf hp)
  cases owner with
  | none =>
    obtain rfl := hopen.mp rfl
    refine ⟨done, ?_, fun i => ?_⟩
    · rw [hout, List.append_nil, split_flatten hpackets]
    · rw [hsplit, if_neg nofun, List.append_nil, split_flatten (hof i)]
  | some j =>
    have hne : cur ≠ [] := fun hnil => nomatch hopen.mpr hnil
    refine ⟨done ++ [(j, cur)], ?_, fun i => ?_⟩
    · rw [hout, split_flatten_append hpackets, split_quiet hne hquiet, List.map_append]
      rfl
    · rw [hsplit, packetsOf_append, packetsOf_singleton]
      by_cases hj : j = i
      · rw [if_pos (congrArg some hj), if_pos hj, split_flatten_append (hof i),
          split_quiet hne hquiet]
      · rw [if_neg (fun hs => hj (Option.some.inj hs)), if_neg hj, List.append_nil, List.append_nil,
          split_flatten (hof i)]

end Merged

end PacketStream
