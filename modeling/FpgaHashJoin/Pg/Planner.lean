import FpgaHashJoin.Pg.GraceAdmission

/-!
# The planner hook

`fpga_planner.c`: for a join of two relations the hook looks for one equality between their
columns, checks the size of the build side, and adds a path when the build side has a unique index
on the join column. When only the other side has such an index, the two sides are swapped; then a
part of the checks is made again for the new build side.

Row estimates are doubles, here the rational numbers they stand for. What the hook computes with
them is exact, or far above the bounds it is compared with. The conversion to `uint64` has a meaning
in C only if the value fits; outside of that range it is whatever the platform does.
-/

namespace FpgaHashJoin.Pg

open FpgaAdapter

/-! ## The name of the algorithm -/

/-- A C string, without the terminating zero. -/
abbrev CString := List UInt8

def cstr (s : String) : CString := s.toList.map fun c => UInt8.ofNat c.toNat

/-- What the platform decides: the letters beyond ASCII in the locale of the server, and the value
of `(uint64) x` for a double `x`. -/
structure Platform where
  isupper : UInt8 → Bool
  tolower : UInt8 → UInt8
  toU64 : ℚ → UInt64
  toU64_eq : ∀ x, 0 ≤ x → x < 2 ^ 64 → (toU64 x).toNat = ⌊x⌋₊

def Platform.foldByte (p : Platform) (c : UInt8) : UInt8 :=
  if 0x41 ≤ c ∧ c ≤ 0x5a then c + 0x20
  else if 0x80 ≤ c ∧ p.isupper c then p.tolower c
  else c

/-- `pg_strcasecmp(s, t) == 0`. -/
def pgStrcaseEq (p : Platform) : CString → CString → Bool
  | [], [] => true
  | c :: s, d :: t => (c == d || p.foldByte c == p.foldByte d) && pgStrcaseEq p s t
  | _, _ => false

structure Gucs where
  fpgaEnabled : Bool := true
  fpgaAlgorithm : Option CString := some (cstr "a")
  fpgaMinInnerRows : Nat := 100
  fpgaMaxInnerRows : Nat := 12288

def fpgaAlgorithmIsB (p : Platform) : Option CString → Bool
  | none => false
  | some s => pgStrcaseEq p s (cstr "b") || pgStrcaseEq p s (cstr "algorithm_b") ||
      pgStrcaseEq p s (cstr "grace")

def fpgaAlgorithmIsValid (p : Platform) : Option CString → Bool
  | none => true
  | some s => pgStrcaseEq p s (cstr "a") || pgStrcaseEq p s (cstr "algorithm_a") ||
      pgStrcaseEq p s (cstr "linear") || fpgaAlgorithmIsB p (some s)

/-! ## The layout of Algorithm B -/

def fpgaHtMaxRows : Nat := 12288
def fpgaGraceMaxK : Nat := 256
def fpgaGraceWordsPerTuple : Nat := 2
def fpgaGraceInnerSlotWords : Nat := fpgaHtMaxRows * fpgaGraceWordsPerTuple
def fpgaGraceOuterAreaBase : Nat := fpgaGraceMaxK * fpgaGraceInnerSlotWords
def fpgaGraceDdr2TotalWords : Nat := 16 * 1024 * 1024
def fpgaGraceMaxInnerRows : Nat := fpgaGraceMaxK * fpgaHtMaxRows

/-- Both estimates are rounded up in this way. -/
def Platform.roundUp (p : Platform) (x : ℚ) : UInt64 :=
  let n := if x ≤ 0 then 0 else p.toU64 x
  if (n.toNat : ℚ) < x then n + 1 else n

def fpgaGraceEstimateK (p : Platform) (innerRows : ℚ) : UInt64 :=
  if innerRows ≤ 0 then 1
  else
    let k := (p.roundUp innerRows + UInt64.ofNat fpgaHtMaxRows - 1) / UInt64.ofNat fpgaHtMaxRows
    if k < 1 then 1 else k

def fpgaGraceEstimateFits (p : Platform) (innerRows outerRows : ℚ) : Bool :=
  if (fpgaGraceMaxInnerRows : ℚ) < innerRows then false
  else
    let k := fpgaGraceEstimateK p innerRows
    if fpgaGraceMaxK < k.toNat then false
    else
      let outerSlotWords : ℚ :=
        (p.roundUp outerRows / k + 1).toNat * fpgaGraceWordsPerTuple * 2
      let usedWords : ℚ := fpgaGraceOuterAreaBase + k.toNat * outerSlotWords
      decide (usedWords ≤ fpgaGraceDdr2TotalWords)

/-! ## Relations and clauses -/

abbrev Oid := Nat

def int8Oid : Oid := 20
def int4Oid : Oid := 23

structure Var where
  varno : Nat
  varattno : Int
  vartype : Oid
  deriving DecidableEq

/-- An argument of an operator; `ε` stands for the expressions that the hook does not look into. -/
inductive Arg (ε : Type) where
  | var (v : Var)
  | other (e : ε)

inductive Expr (ε : Type) where
  | opExpr (opno : Oid) (args : List (Arg ε))
  | other (e : ε)

structure RestrictInfo (ε : Type) where
  clause : Expr ε
  hashjoinoperator : Oid

/-- A node of the list of clauses. -/
inductive ListNode (ε : Type) where
  | restrictInfo (r : RestrictInfo ε)
  | other (e : ε)

inductive JoinType where
  | inner | left | full | right | semi | anti | rightAnti | uniqueOuter | uniqueInner
  deriving DecidableEq

inductive RelOptKind where
  | baserel | joinrel | otherMemberRel | otherJoinrel | upperRel | otherUpperRel
  deriving DecidableEq

structure IndexOptInfo (ε : Type) where
  unique : Bool
  immediate : Bool
  /-- The columns, `ncolumns` of them. -/
  indexkeys : List Int
  indpred : List ε

/-- The finite values of a double. -/
def IsDouble (x : ℚ) : Prop := ∃ m e : ℤ, |m| < 2 ^ 53 ∧ x = m * 2 ^ e

/-- A relation of the planner. A base relation is one entry of the range table. -/
structure RelOptInfo (ε : Type) where
  reloptkind : RelOptKind
  relids : List Nat
  rows : ℚ
  indexlist : List (IndexOptInfo ε)
  rows_double : IsDouble rows
  relids_base : reloptkind = .baserel → ∃ r, relids = [r]

/-- The variables of a clause between two columns. -/
def ListNode.vars {ε : Type} : ListNode ε → List Var
  | .restrictInfo ⟨.opExpr _ [.var l, .var r], _⟩ => [l, r]
  | _ => []

/-- The arguments of the hook. The clauses of a join are about the two relations that are joined,
and these have nothing in common. -/
structure JoinInput (ε : Type) where
  outerrel : RelOptInfo ε
  innerrel : RelOptInfo ε
  jointype : JoinType
  restrictlist : List (ListNode ε)
  disjoint : ∀ r ∈ innerrel.relids, r ∉ outerrel.relids
  vars_mem : ∀ c ∈ restrictlist, ∀ v ∈ c.vars, v.varno ∈ innerrel.relids ∨ v.varno ∈ outerrel.relids

/-! ## The hook -/

section Hook

variable {ε : Type}

/-- The variables of a hash-joinable equality between two relations; the scan goes on to the next
node for every other one. -/
def equiVars : ListNode ε → Option (Var × Var)
  | .restrictInfo ⟨.opExpr _ [.var left, .var right], hashjoinoperator⟩ =>
    if hashjoinoperator = 0 then none
    else if left.varno = right.varno then none
    else some (left, right)
  | _ => none

/-- The locals of the scan: the number of equalities and the outputs. -/
structure KeyScan where
  eqCount : Nat := 0
  keyOid : Oid := 0
  innerAttno : Int := 0
  outerAttno : Int := 0

def KeyScan.assign (k : KeyScan) (innerVar outerVar : Var) : Option KeyScan :=
  if innerVar.vartype ≠ outerVar.vartype then none
  else some ⟨k.eqCount, innerVar.vartype, innerVar.varattno, outerVar.varattno⟩

/-- One round of the loop; `none` is `return false`. -/
def KeyScan.round (innerrel outerrel : RelOptInfo ε) (k : KeyScan) (c : ListNode ε) :
    Option KeyScan :=
  match equiVars c with
  | none => some k
  | some (left, right) =>
    let k := { k with eqCount := k.eqCount + 1 }
    if 1 < k.eqCount then none
    else if left.varno ∈ innerrel.relids then k.assign left right
    else if left.varno ∈ outerrel.relids then k.assign right left
    else some k

def findEquijoinKey (restrictlist : List (ListNode ε)) (innerrel outerrel : RelOptInfo ε) :
    Option KeyScan := do
  let k ← restrictlist.foldlM (KeyScan.round innerrel outerrel) {}
  if k.eqCount = 1 then some k else none

def relJoinkeyIsUnique (rel : RelOptInfo ε) (attno : Int) : Bool :=
  rel.indexlist.any fun idx =>
    idx.unique && idx.immediate && idx.indexkeys.length == 1 && idx.indexkeys.head? == some attno &&
      idx.indpred.isEmpty

/-- What `fpga_is_offloadable` finds out. -/
structure Offload where
  keyType : KeyType
  innerAttno : Int
  outerAttno : Int

def keyTypeOf (keyOid : Oid) : Option KeyType :=
  if keyOid = int4Oid then some .int32
  else if keyOid = int8Oid then some .int64
  else none

/-- The build side fits the hardware. -/
def sizeFits (p : Platform) (g : Gucs) (build probe : RelOptInfo ε) : Bool :=
  if fpgaAlgorithmIsB p g.fpgaAlgorithm then fpgaGraceEstimateFits p build.rows probe.rows
  else !decide ((g.fpgaMaxInnerRows : ℚ) < build.rows)

def fpgaIsOffloadable (p : Platform) (g : Gucs) (j : JoinInput ε) : Option Offload := do
  guard g.fpgaEnabled
  guard (fpgaAlgorithmIsValid p g.fpgaAlgorithm)
  guard (j.jointype = .inner)
  let k ← findEquijoinKey j.restrictlist j.innerrel j.outerrel
  let keyType ← keyTypeOf k.keyOid
  guard (sizeFits p g j.innerrel j.outerrel)
  guard (¬ j.innerrel.rows < g.fpgaMinInnerRows)
  guard (j.innerrel.reloptkind = .baserel ∧ j.outerrel.reloptkind = .baserel)
  return ⟨keyType, k.innerAttno, k.outerAttno⟩

/-- The path: `custom_private`, and in `custom_paths` the cheapest paths of two relations. -/
structure CustomPath (ε : Type) where
  keyType : KeyType
  innerAttno : Int
  outerAttno : Int
  outerPath : RelOptInfo ε
  innerPath : RelOptInfo ε

/-- The path that is added, if any. -/
def fpgaPlannerHook (p : Platform) (g : Gucs) (j : JoinInput ε) : Option (CustomPath ε) := do
  let o ← fpgaIsOffloadable p g j
  if !relJoinkeyIsUnique j.innerrel o.innerAttno then
    guard (relJoinkeyIsUnique j.outerrel o.outerAttno)
    guard (sizeFits p g j.outerrel j.innerrel)
    return ⟨o.keyType, o.outerAttno, o.innerAttno, j.innerrel, j.outerrel⟩
  else
    return ⟨o.keyType, o.innerAttno, o.outerAttno, j.outerrel, j.innerrel⟩

end Hook

/-! ## The scan for the key -/

section Scan

variable {ε : Type} {innerrel outerrel : RelOptInfo ε}

theorem KeyScan.round_quiet {k : KeyScan} {c : ListNode ε} (h : equiVars c = none) :
    k.round innerrel outerrel c = some k := by
  rw [KeyScan.round, h]

theorem KeyScan.assign_eq_some {k k' : KeyScan} {v w : Var} (h : k.assign v w = some k') :
    v.vartype = w.vartype ∧ k' = ⟨k.eqCount, v.vartype, v.varattno, w.varattno⟩ := by
  rw [KeyScan.assign] at h
  split at h
  · cases h
  next hty => exact ⟨not_not.mp hty, (Option.some.inj h).symm⟩

/-- The round of an equality: it is the first one, and its left side decides which variable is the
inner one. -/
theorem KeyScan.round_equality {k k' : KeyScan} {c : ListNode ε} {left right : Var}
    (hc : equiVars c = some (left, right)) (h : k.round innerrel outerrel c = some k') :
    k.eqCount = 0 ∧ k'.eqCount = 1 ∧
      (left.varno ∈ innerrel.relids ∧ left.vartype = right.vartype ∧
          k' = ⟨1, left.vartype, left.varattno, right.varattno⟩ ∨
        left.varno ∉ innerrel.relids ∧ left.varno ∈ outerrel.relids ∧
          right.vartype = left.vartype ∧ k' = ⟨1, right.vartype, right.varattno, left.varattno⟩ ∨
        left.varno ∉ innerrel.relids ∧ left.varno ∉ outerrel.relids) := by
  rw [KeyScan.round, hc] at h
  dsimp only at h
  split at h
  · cases h
  next hfirst =>
    have hzero : k.eqCount = 0 := by omega
    rw [hzero] at h
    split at h
    next hin =>
      obtain ⟨hty, rfl⟩ := KeyScan.assign_eq_some h
      exact ⟨hzero, rfl, Or.inl ⟨hin, hty, rfl⟩⟩
    next hin =>
      split at h
      next hout =>
        obtain ⟨hty, rfl⟩ := KeyScan.assign_eq_some h
        exact ⟨hzero, rfl, Or.inr (Or.inl ⟨hin, hout, hty, rfl⟩)⟩
      next hout =>
        obtain rfl := Option.some.inj h
        exact ⟨hzero, rfl, Or.inr (Or.inr ⟨hin, hout⟩)⟩

/-- After the first equality every other one ends the scan. -/
theorem KeyScan.rest_quiet {k k' : KeyScan} {cs : List (ListNode ε)} (hk : k.eqCount = 1)
    (h : cs.foldlM (KeyScan.round innerrel outerrel) k = some k') :
    k' = k ∧ ∀ c ∈ cs, equiVars c = none := by
  induction cs with
  | nil => exact ⟨(Option.some.inj h).symm, by simp⟩
  | cons c cs ih =>
    rw [List.foldlM_cons] at h
    cases hc : equiVars c with
    | none =>
      rw [KeyScan.round_quiet hc] at h
      obtain ⟨hkeep, hquiet⟩ := ih h
      refine ⟨hkeep, fun c' hc' => ?_⟩
      rcases List.mem_cons.mp hc' with rfl | hc'
      · exact hc
      · exact hquiet c' hc'
    | some vars =>
      have hnone : k.round innerrel outerrel c = none := by
        rw [KeyScan.round, hc]
        exact if_pos (show 1 < k.eqCount + 1 by omega)
      rw [hnone] at h
      cases h

/-- **A key comes from the only equality of the list.** -/
theorem findEquijoinKey_spec {cs : List (ListNode ε)} {k : KeyScan}
    (h : findEquijoinKey cs innerrel outerrel = some k) :
    ∃ pre c post left right, cs = pre ++ c :: post ∧ equiVars c = some (left, right) ∧
      (∀ c' ∈ pre ++ post, equiVars c' = none) ∧
      KeyScan.round innerrel outerrel {} c = some k := by
  rw [findEquijoinKey] at h
  obtain ⟨k', hscan, hcount⟩ := Option.bind_eq_some_iff.mp h
  by_cases hone : k'.eqCount = 1
  · rw [if_pos hone] at hcount
    obtain rfl := Option.some.inj hcount
    clear h hcount
    induction cs with
    | nil =>
      obtain rfl := Option.some.inj hscan
      cases hone
    | cons c cs ih =>
      rw [List.foldlM_cons] at hscan
      obtain ⟨k₁, hround, hrest⟩ := Option.bind_eq_some_iff.mp hscan
      cases hc : equiVars c with
      | none =>
        rw [KeyScan.round_quiet hc] at hround
        obtain rfl := Option.some.inj hround
        obtain ⟨pre, c', post, left, right, rfl, hvars, hquiet, hkey⟩ := ih hrest
        refine ⟨c :: pre, c', post, left, right, rfl, hvars, ?_, hkey⟩
        intro d hd
        rcases List.mem_cons.mp hd with rfl | hd
        · exact hc
        · exact hquiet d hd
      | some vars =>
        obtain ⟨-, hk₁, -⟩ := KeyScan.round_equality hc hround
        obtain ⟨rfl, hquiet⟩ := KeyScan.rest_quiet hk₁ hrest
        exact ⟨[], c, cs, vars.1, vars.2, rfl, hc, hquiet, hround⟩
  · rw [if_neg hone] at hcount
    cases hcount

theorem equiVars_eq_some {c : ListNode ε} {left right : Var}
    (h : equiVars c = some (left, right)) :
    c.vars = [left, right] ∧ left.varno ≠ right.varno ∧
      ∃ opno hashjoinoperator, hashjoinoperator ≠ 0 ∧
        c = .restrictInfo ⟨.opExpr opno [.var left, .var right], hashjoinoperator⟩ := by
  unfold equiVars at h
  split at h
  next opno l r oper =>
    split at h
    · cases h
    next hoper =>
      split at h
      · cases h
      next hne =>
        obtain ⟨rfl, rfl⟩ := Prod.mk.inj (Option.some.inj h)
        exact ⟨rfl, hne, opno, oper, hoper, rfl⟩
  · cases h

/-- The columns of an equality between two relations. -/
def IsJoinKey (cs : List (ListNode ε)) (build probe : RelOptInfo ε) (keyOid : Oid)
    (buildAttno probeAttno : Int) : Prop :=
  ∃ c ∈ cs, ∃ v w : Var, (equiVars c = some (v, w) ∨ equiVars c = some (w, v)) ∧
    v.varno ∈ build.relids ∧ w.varno ∈ probe.relids ∧ v.vartype = keyOid ∧ w.vartype = keyOid ∧
    v.varattno = buildAttno ∧ w.varattno = probeAttno

theorem IsJoinKey.swap {cs : List (ListNode ε)} {build probe : RelOptInfo ε} {keyOid : Oid}
    {buildAttno probeAttno : Int} (h : IsJoinKey cs build probe keyOid buildAttno probeAttno) :
    IsJoinKey cs probe build keyOid probeAttno buildAttno := by
  obtain ⟨c, hc, v, w, hvars, hv, hw, htv, htw, hav, haw⟩ := h
  exact ⟨c, hc, w, v, hvars.symm, hw, hv, htw, htv, haw, hav⟩

/-- There is no other equality. -/
theorem findEquijoinKey_only {cs : List (ListNode ε)} {k : KeyScan}
    (h : findEquijoinKey cs innerrel outerrel = some k) {c c' : ListNode ε} {vs vs' : Var × Var}
    (hc : c ∈ cs) (hvs : equiVars c = some vs) (hc' : c' ∈ cs) (hvs' : equiVars c' = some vs') :
    vs = vs' := by
  obtain ⟨pre, d, post, left, right, rfl, hd, hquiet, -⟩ := findEquijoinKey_spec h
  have honly : ∀ c ∈ pre ++ d :: post, ∀ vs, equiVars c = some vs → vs = (left, right) := by
    intro c hc vs hvs
    by_cases heq : c = d
    · rw [heq, hd] at hvs
      exact (Option.some.inj hvs).symm
    · have hother : c ∈ pre ++ post := by
        simp only [List.mem_append, List.mem_cons, heq, false_or] at hc ⊢
        exact hc
      rw [hquiet c hother] at hvs
      cases hvs
  rw [honly c hc vs hvs, honly c' hc' vs' hvs']

/-- Different variables of a join of base relations are on different sides. -/
theorem JoinInput.other_side (j : JoinInput ε) (hin : j.innerrel.reloptkind = .baserel)
    (hout : j.outerrel.reloptkind = .baserel) {v w : Var} (hne : v.varno ≠ w.varno)
    (hw : w.varno ∈ j.innerrel.relids ∨ w.varno ∈ j.outerrel.relids) :
    (v.varno ∈ j.innerrel.relids → w.varno ∈ j.outerrel.relids) ∧
      (v.varno ∈ j.outerrel.relids → w.varno ∈ j.innerrel.relids) := by
  obtain ⟨r, hr⟩ := j.innerrel.relids_base hin
  obtain ⟨r', hr'⟩ := j.outerrel.relids_base hout
  rw [hr, hr', List.mem_singleton, List.mem_singleton] at hw ⊢
  rw [List.mem_singleton, List.mem_singleton]
  refine ⟨fun hv => ?_, fun hv => ?_⟩
  · exact hw.resolve_left fun hw => hne (hv.trans hw.symm)
  · exact hw.resolve_right fun hw => hne (hv.trans hw.symm)

theorem findEquijoinKey_isJoinKey {j : JoinInput ε} {k : KeyScan}
    (h : findEquijoinKey j.restrictlist j.innerrel j.outerrel = some k)
    (hin : j.innerrel.reloptkind = .baserel) (hout : j.outerrel.reloptkind = .baserel) :
    IsJoinKey j.restrictlist j.innerrel j.outerrel k.keyOid k.innerAttno k.outerAttno := by
  obtain ⟨pre, c, post, left, right, hcs, hvars, -, hround⟩ := findEquijoinKey_spec h
  have hc : c ∈ j.restrictlist := by simp [hcs]
  obtain ⟨hlist, hne, -⟩ := equiVars_eq_some hvars
  have hleft := j.vars_mem c hc left (by simp [hlist])
  have hright := j.vars_mem c hc right (by simp [hlist])
  obtain ⟨hside, hside'⟩ := j.other_side hin hout hne hright
  obtain ⟨-, -, hcases⟩ := KeyScan.round_equality hvars hround
  rcases hcases with ⟨hl, hty, rfl⟩ | ⟨-, hl, hty, rfl⟩ | ⟨hl, hl'⟩
  · exact ⟨c, hc, left, right, Or.inl hvars, hl, hside hl, rfl, hty.symm, rfl, rfl⟩
  · exact ⟨c, hc, right, left, Or.inr hvars, hside' hl, hl, rfl, hty.symm, rfl, rfl⟩
  · exact absurd hleft (not_or.mpr ⟨hl, hl'⟩)

end Scan

/-! ## The estimate of the layout -/

/-- Between the largest double below `2 ^ 64` and `2 ^ 64` there is room. -/
theorem IsDouble.le_of_lt {x : ℚ} (h : IsDouble x) (hlt : x < 2 ^ 64) : x ≤ (2 ^ 64 - 2 ^ 11 : ℕ) := by
  obtain ⟨m, e, hm, rfl⟩ := h
  by_cases he : 11 ≤ e
  · -- a multiple of `2 ^ 11`
    obtain ⟨n, hn⟩ := Int.eq_ofNat_of_zero_le (sub_nonneg.mpr he)
    have hx : (m : ℚ) * 2 ^ e = ((m * 2 ^ n * 2 ^ 11 : ℤ) : ℚ) := by
      have hexp : e = (n : ℤ) + (11 : ℕ) := by omega
      rw [hexp, zpow_add₀ (by norm_num), zpow_natCast, zpow_natCast]
      push_cast
      ring
    rw [hx] at hlt ⊢
    have hlt' : m * 2 ^ n * 2 ^ 11 < 2 ^ 64 := by exact_mod_cast hlt
    have hle : m * 2 ^ n * 2 ^ 11 ≤ 2 ^ 64 - 2 ^ 11 := by omega
    exact_mod_cast hle
  · have hpow : (2 : ℚ) ^ e ≤ 2 ^ (10 : ℤ) := zpow_le_zpow_right₀ (by norm_num) (by omega)
    have hm' : (m : ℚ) ≤ 2 ^ 53 := by exact_mod_cast (le_abs_self m).trans hm.le
    have hpos : (0 : ℚ) < 2 ^ e := by positivity
    calc (m : ℚ) * 2 ^ e ≤ 2 ^ 53 * 2 ^ e := mul_le_mul_of_nonneg_right hm' hpos.le
      _ ≤ 2 ^ 53 * 2 ^ (10 : ℤ) := mul_le_mul_of_nonneg_left hpow (by norm_num)
      _ ≤ (2 ^ 64 - 2 ^ 11 : ℕ) := by norm_num

theorem Platform.roundUp_eq (p : Platform) {x : ℚ} (hx : ⌈x⌉₊ < 2 ^ 64) :
    (p.roundUp x).toNat = ⌈x⌉₊ := by
  by_cases hpos : x ≤ 0
  · rw [Nat.ceil_eq_zero.mpr hpos, Platform.roundUp, if_pos hpos]
    have hzero : ¬ (((0 : UInt64).toNat : ℕ) : ℚ) < x := not_lt.mpr (by simpa using hpos)
    rw [if_neg hzero]
    rfl
  · have hlt : x < 2 ^ 64 := (Nat.le_ceil x).trans_lt (by exact_mod_cast hx)
    have hfloor := p.toU64_eq x (not_le.mp hpos).le hlt
    rw [Platform.roundUp, if_neg hpos]
    simp only [hfloor]
    by_cases hfrac : (⌊x⌋₊ : ℚ) < x
    · have hceil : ⌈x⌉₊ = ⌊x⌋₊ + 1 := by
        rw [Nat.ceil_eq_iff (Nat.succ_ne_zero _)]
        exact ⟨by simpa using hfrac, by exact_mod_cast (Nat.lt_floor_add_one x).le⟩
      have hone : (1 : UInt64).toNat = 1 := rfl
      rw [if_pos hfrac, UInt64.toNat_add, hfloor, hone, hceil, Nat.mod_eq_of_lt]
      omega
    · have heq : x = ⌊x⌋₊ := le_antisymm (not_lt.mp hfrac) (Nat.floor_le (not_le.mp hpos).le)
      have hceil : ⌈x⌉₊ = ⌊x⌋₊ := by
        conv_lhs => rw [heq]
        exact Nat.ceil_natCast _
      rw [if_neg hfrac, hfloor, hceil]

/-- The number of partitions. -/
theorem fpgaGraceEstimateK_eq (p : Platform) {x : ℚ} (hx : ⌈x⌉₊ ≤ graceMaxInnerRows) :
    (fpgaGraceEstimateK p x).toNat = partitionCount ⌈x⌉₊ := by
  rw [graceMaxInnerRows_eq] at hx
  by_cases hpos : x ≤ 0
  · rw [fpgaGraceEstimateK, if_pos hpos, Nat.ceil_eq_zero.mpr hpos]
    rfl
  · have hround : (p.roundUp x).toNat = ⌈x⌉₊ := p.roundUp_eq (by omega)
    have hquot : ((p.roundUp x + UInt64.ofNat fpgaHtMaxRows - 1) /
        UInt64.ofNat fpgaHtMaxRows).toNat = (⌈x⌉₊ + htMaxRows - 1) / htMaxRows := by
      have hht : (UInt64.ofNat fpgaHtMaxRows).toNat = 12288 := rfl
      have hone : (1 : UInt64).toNat = 1 := rfl
      have hsum : (p.roundUp x + UInt64.ofNat fpgaHtMaxRows).toNat = ⌈x⌉₊ + 12288 := by
        rw [UInt64.toNat_add, hround, hht, Nat.mod_eq_of_lt (by omega)]
      have hdiff : (p.roundUp x + UInt64.ofNat fpgaHtMaxRows - 1).toNat = ⌈x⌉₊ + 12288 - 1 := by
        rw [UInt64.toNat_sub_of_le, hsum, hone]
        rw [UInt64.le_iff_toNat_le, hsum, hone]
        omega
      rw [UInt64.toNat_div, hdiff, hht, htMaxRows_eq]
    rw [fpgaGraceEstimateK, if_neg hpos, partitionCount]
    dsimp only
    have hone : (1 : UInt64).toNat = 1 := rfl
    by_cases hk : (p.roundUp x + UInt64.ofNat fpgaHtMaxRows - 1) / UInt64.ofNat fpgaHtMaxRows < 1
    · rw [if_pos hk, if_pos]
      · rfl
      · rw [UInt64.lt_iff_toNat_lt, hquot, hone] at hk
        omega
    · rw [if_neg hk, if_neg, hquot]
      rw [UInt64.lt_iff_toNat_lt, hquot, hone] at hk
      omega

/-- The planner checks the rounded estimates as the adapter checks the rows. -/
theorem fpgaGraceEstimateFits_eq (p : Platform) {x y : ℚ} (hy : ⌈y⌉₊ ≤ 2 ^ 64 - 2 ^ 11) :
    fpgaGraceEstimateFits p x y = graceDdrLayoutFits ⌈x⌉₊ ⌈y⌉₊ := by
  rw [Bool.eq_iff_iff, graceDdrLayoutFits_eq, fpgaGraceEstimateFits]
  have hmax : (fpgaGraceMaxInnerRows : ℚ) < x ↔ ¬ ⌈x⌉₊ ≤ graceMaxInnerRows := by
    rw [Nat.ceil_le, not_le]
    rfl
  by_cases hx : ⌈x⌉₊ ≤ graceMaxInnerRows
  · have hk := fpgaGraceEstimateK_eq p hx
    have hround := p.roundUp_eq (x := y) (by omega)
    have hslot : (p.roundUp y / fpgaGraceEstimateK p x + 1).toNat =
        ⌈y⌉₊ / partitionCount ⌈x⌉₊ + 1 := by
      have hone : (1 : UInt64).toNat = 1 := rfl
      have hle := Nat.div_le_self ⌈y⌉₊ (partitionCount ⌈x⌉₊)
      rw [UInt64.toNat_add, UInt64.toNat_div, hround, hk, hone, Nat.mod_eq_of_lt (by omega)]
    rw [if_neg (fun h => hmax.mp h hx)]
    dsimp only
    have hle : partitionCount ⌈x⌉₊ ≤ fpgaGraceMaxK := partitionCount_le hx
    rw [hk, if_neg (not_lt.mpr hle), decide_eq_true_iff, hslot]
    have hcast : (fpgaGraceOuterAreaBase : ℚ) + (partitionCount ⌈x⌉₊ : ℕ) *
        (((⌈y⌉₊ / partitionCount ⌈x⌉₊ + 1 : ℕ) : ℚ) * fpgaGraceWordsPerTuple * 2) =
        ((graceOuterAreaBase + partitionCount ⌈x⌉₊ * exactSlotWords ⌈x⌉₊ ⌈y⌉₊ : ℕ) : ℚ) := by
      have hbase : fpgaGraceOuterAreaBase = graceOuterAreaBase := rfl
      rw [exactSlotWords, hbase, fpgaGraceWordsPerTuple]
      push_cast
      ring
    have htotal : fpgaGraceDdr2TotalWords = graceDdr2TotalWords := rfl
    rw [hcast, htotal, Nat.cast_le]
    exact ⟨fun h => ⟨hx, h⟩, fun h => h.2⟩
  · rw [if_pos (hmax.mpr hx)]
    exact ⟨nofun, fun h => absurd h.1 hx⟩

theorem not_graceDdrLayoutFits {inner outer : Nat} (h : graceDdr2TotalWords ≤ outer) :
    graceDdrLayoutFits inner outer = false := by
  rw [← Bool.not_eq_true, graceDdrLayoutFits_eq]
  rintro ⟨-, hfits⟩
  have hlt := Nat.lt_mul_div_succ outer (partitionCount_pos inner)
  have hwords : partitionCount inner * exactSlotWords inner outer =
      partitionCount inner * (outer / partitionCount inner + 1) * 4 := by
    rw [exactSlotWords, Nat.mul_assoc]
  omega

/-! ## The offload conditions -/

section Conditions

variable {ε : Type}

/-- What the path should guarantee for the side that it makes the build side. -/
structure MeetsConditions (p : Platform) (g : Gucs) (j : JoinInput ε) (path : CustomPath ε) :
    Prop where
  unique : ∃ idx ∈ path.innerPath.indexlist, idx.unique = true ∧ idx.immediate = true ∧
    idx.indexkeys = [path.innerAttno] ∧ idx.indpred = []
  sides : path.innerPath = j.innerrel ∧ path.outerPath = j.outerrel ∨
    path.innerPath = j.outerrel ∧ path.outerPath = j.innerrel
  key : ∃ keyOid, keyTypeOf keyOid = some path.keyType ∧
    IsJoinKey j.restrictlist path.innerPath path.outerPath keyOid path.innerAttno path.outerAttno
  min_rows : (g.fpgaMinInnerRows : ℚ) ≤ path.innerPath.rows
  size : if fpgaAlgorithmIsB p g.fpgaAlgorithm then
      graceDdrLayoutFits ⌈path.innerPath.rows⌉₊ ⌈path.outerPath.rows⌉₊ = true
    else path.innerPath.rows ≤ g.fpgaMaxInnerRows

/-- The hook takes the outer relation as the build side. -/
def Swaps (j : JoinInput ε) : Prop :=
  ∃ k, findEquijoinKey j.restrictlist j.innerrel j.outerrel = some k ∧
    relJoinkeyIsUnique j.innerrel k.innerAttno = false

theorem relJoinkeyIsUnique_iff {rel : RelOptInfo ε} {attno : Int} :
    relJoinkeyIsUnique rel attno = true ↔ ∃ idx ∈ rel.indexlist, idx.unique = true ∧
      idx.immediate = true ∧ idx.indexkeys = [attno] ∧ idx.indpred = [] := by
  have hkeys : ∀ keys : List Int,
      keys.length = 1 ∧ keys.head? = some attno ↔ keys = [attno] := by
    intro keys
    rcases keys with _ | ⟨key, _ | ⟨key', keys⟩⟩ <;> simp
  simp only [relJoinkeyIsUnique, List.any_eq_true, Bool.and_eq_true, beq_iff_eq,
    List.isEmpty_iff, and_assoc]
  refine exists_congr fun idx => and_congr_right fun _ => and_congr_right fun _ =>
    and_congr_right fun _ => ?_
  rw [← hkeys, and_assoc]

/-- A check in front of the rest of a function. -/
theorem guard_bind_eq_some {α : Type} {P : Prop} [Decidable P] {f : Unit → Option α} {a : α} :
    (guard P >>= f) = some a ↔ P ∧ f () = some a := by
  by_cases h : P <;> simp [guard, h]

theorem guard_bind {α : Type} {P : Prop} [Decidable P] {f : Unit → Option α} (h : P) :
    (guard P >>= f) = f () := by
  simp [guard, h]

/-- What has been checked for the sides as they are given. -/
theorem fpgaIsOffloadable_spec {p : Platform} {g : Gucs} {j : JoinInput ε} {o : Offload}
    (h : fpgaIsOffloadable p g j = some o) :
    ∃ k, findEquijoinKey j.restrictlist j.innerrel j.outerrel = some k ∧
      keyTypeOf k.keyOid = some o.keyType ∧ o.innerAttno = k.innerAttno ∧
      o.outerAttno = k.outerAttno ∧ sizeFits p g j.innerrel j.outerrel = true ∧
      (g.fpgaMinInnerRows : ℚ) ≤ j.innerrel.rows ∧ j.innerrel.reloptkind = .baserel ∧
      j.outerrel.reloptkind = .baserel := by
  rw [fpgaIsOffloadable, guard_bind_eq_some, guard_bind_eq_some, guard_bind_eq_some] at h
  obtain ⟨-, -, -, h⟩ := h
  obtain ⟨k, hk, h⟩ := Option.bind_eq_some_iff.mp h
  obtain ⟨ty, hty, h⟩ := Option.bind_eq_some_iff.mp h
  rw [guard_bind_eq_some, guard_bind_eq_some, guard_bind_eq_some] at h
  obtain ⟨hsize, hmin, ⟨hin, hout⟩, h⟩ := h
  obtain rfl := Option.some.inj h
  exact ⟨k, hk, hty, rfl, rfl, hsize, not_lt.mp hmin, hin, hout⟩

/-- The other direction, for given relations. -/
theorem fpgaIsOffloadable_of {p : Platform} {g : Gucs} {j : JoinInput ε} {k : KeyScan} {ty : KeyType}
    (henabled : g.fpgaEnabled = true) (hvalid : fpgaAlgorithmIsValid p g.fpgaAlgorithm = true)
    (hjoin : j.jointype = .inner)
    (hk : findEquijoinKey j.restrictlist j.innerrel j.outerrel = some k)
    (hty : keyTypeOf k.keyOid = some ty) (hsize : sizeFits p g j.innerrel j.outerrel = true)
    (hmin : ¬ j.innerrel.rows < g.fpgaMinInnerRows)
    (hbase : j.innerrel.reloptkind = .baserel ∧ j.outerrel.reloptkind = .baserel) :
    fpgaIsOffloadable p g j = some ⟨ty, k.innerAttno, k.outerAttno⟩ := by
  rw [fpgaIsOffloadable, guard_bind henabled, guard_bind hvalid, guard_bind hjoin, hk,
    Option.bind_eq_bind, Option.bind_some, hty, Option.bind_eq_bind, Option.bind_some,
    guard_bind hsize, guard_bind hmin, guard_bind hbase]
  rfl

/-- **The two ways to a path.** -/
theorem fpgaPlannerHook_cases {p : Platform} {g : Gucs} {j : JoinInput ε} {path : CustomPath ε}
    (h : fpgaPlannerHook p g j = some path) :
    ∃ k ty, findEquijoinKey j.restrictlist j.innerrel j.outerrel = some k ∧
      keyTypeOf k.keyOid = some ty ∧ sizeFits p g j.innerrel j.outerrel = true ∧
      (g.fpgaMinInnerRows : ℚ) ≤ j.innerrel.rows ∧ j.innerrel.reloptkind = .baserel ∧
      j.outerrel.reloptkind = .baserel ∧
      (relJoinkeyIsUnique j.innerrel k.innerAttno = true ∧
          path = ⟨ty, k.innerAttno, k.outerAttno, j.outerrel, j.innerrel⟩ ∨
        relJoinkeyIsUnique j.innerrel k.innerAttno = false ∧
          relJoinkeyIsUnique j.outerrel k.outerAttno = true ∧
          sizeFits p g j.outerrel j.innerrel = true ∧
          path = ⟨ty, k.outerAttno, k.innerAttno, j.innerrel, j.outerrel⟩) := by
  rw [fpgaPlannerHook] at h
  obtain ⟨o, ho, h⟩ := Option.bind_eq_some_iff.mp h
  obtain ⟨k, hk, hty, hin, hout, hsize, hmin, hbase, hbase'⟩ := fpgaIsOffloadable_spec ho
  refine ⟨k, o.keyType, hk, hty, hsize, hmin, hbase, hbase', ?_⟩
  rw [hin, hout] at h
  cases hunique : relJoinkeyIsUnique j.innerrel k.innerAttno with
  | true =>
    rw [hunique] at h
    exact Or.inl ⟨rfl, (Option.some.inj h).symm⟩
  | false =>
    rw [hunique, Bool.not_false, if_pos rfl, guard_bind_eq_some, guard_bind_eq_some] at h
    obtain ⟨hother, hfits, h⟩ := h
    exact Or.inr ⟨rfl, hother, hfits, (Option.some.inj h).symm⟩

/-- The size check of the hook, in terms of the layout. -/
theorem sizeFits_iff {p : Platform} {g : Gucs} {build probe : RelOptInfo ε}
    (h : sizeFits p g build probe = true) :
    (if fpgaAlgorithmIsB p g.fpgaAlgorithm then
        graceDdrLayoutFits ⌈build.rows⌉₊ ⌈probe.rows⌉₊ = true
      else build.rows ≤ g.fpgaMaxInnerRows) ↔
      (fpgaAlgorithmIsB p g.fpgaAlgorithm = true → probe.rows < 2 ^ 64) := by
  rw [sizeFits] at h
  cases hB : fpgaAlgorithmIsB p g.fpgaAlgorithm with
  | true =>
    rw [hB, if_pos rfl] at h
    rw [if_pos rfl]
    constructor
    · intro hfits _
      by_contra hlarge
      have hceil : 2 ^ 64 ≤ ⌈probe.rows⌉₊ := by
        have hle := (not_lt.mp hlarge).trans (Nat.le_ceil probe.rows)
        exact_mod_cast hle
      rw [not_graceDdrLayoutFits] at hfits
      · cases hfits
      · rw [graceDdr2TotalWords_eq]
        omega
    · intro hlt
      have hceil := Nat.ceil_le.mpr (probe.rows_double.le_of_lt (hlt rfl))
      rwa [← fpgaGraceEstimateFits_eq p hceil]
  | false =>
    rw [hB, if_neg Bool.false_ne_true, Bool.not_eq_true', decide_eq_false_iff_not, not_lt] at h
    rw [if_neg Bool.false_ne_true]
    exact ⟨fun _ => nofun, fun _ => h⟩

/-- The build side of Algorithm B is small. -/
theorem sizeFits_build {p : Platform} {g : Gucs} {build probe : RelOptInfo ε}
    (h : sizeFits p g build probe = true) (hB : fpgaAlgorithmIsB p g.fpgaAlgorithm = true) :
    build.rows < 2 ^ 64 := by
  rw [sizeFits, hB, if_pos rfl, fpgaGraceEstimateFits] at h
  split at h
  · cases h
  next hle =>
    have hmax : (fpgaGraceMaxInnerRows : ℚ) < 2 ^ 64 := by
      norm_num [fpgaGraceMaxInnerRows, fpgaGraceMaxK, fpgaHtMaxRows]
    exact (not_lt.mp hle).trans_lt hmax

/-- **When the offload conditions hold.** A path that the hook adds meets them for the side that it
makes the build side if and only if a swapped build side has the rows that `fpga.min_inner_rows`
asks for, and for Algorithm B the estimate of the outer relation can be converted to `uint64`. -/
theorem offload_conditions_iff (p : Platform) (g : Gucs) (j : JoinInput ε) {path : CustomPath ε}
    (h : fpgaPlannerHook p g j = some path) :
    MeetsConditions p g j path ↔
      (Swaps j → (g.fpgaMinInnerRows : ℚ) ≤ j.outerrel.rows) ∧
      (fpgaAlgorithmIsB p g.fpgaAlgorithm = true → j.outerrel.rows < 2 ^ 64) := by
  obtain ⟨k, ty, hk, hty, hsize, hmin, hbase, hbase', hpath⟩ := fpgaPlannerHook_cases h
  have hkey := findEquijoinKey_isJoinKey hk hbase hbase'
  rcases hpath with ⟨hunique, rfl⟩ | ⟨hnot, hunique, hsize', rfl⟩
  · have hkeep : ¬ Swaps j := by
      rintro ⟨k', hk', hnot⟩
      obtain rfl := Option.some.inj (hk.symm.trans hk')
      rw [hunique] at hnot
      cases hnot
    constructor
    · intro hm
      exact ⟨fun hs => absurd hs hkeep, (sizeFits_iff hsize).mp hm.size⟩
    · rintro ⟨-, hlt⟩
      exact
        { unique := relJoinkeyIsUnique_iff.mp hunique
          sides := Or.inl ⟨rfl, rfl⟩
          key := ⟨k.keyOid, hty, hkey⟩
          min_rows := hmin
          size := (sizeFits_iff hsize).mpr hlt }
  · have hswap : Swaps j := ⟨k, hk, hnot⟩
    constructor
    · intro hm
      exact ⟨fun _ => hm.min_rows, sizeFits_build hsize'⟩
    · rintro ⟨hrows, -⟩
      exact
        { unique := relJoinkeyIsUnique_iff.mp hunique
          sides := Or.inr ⟨rfl, rfl⟩
          key := ⟨k.keyOid, hty, hkey.swap⟩
          min_rows := hrows hswap
          size := (sizeFits_iff hsize').mpr (sizeFits_build hsize) }

end Conditions

/-! ## A small unique side -/

/-- A server with ASCII letters only. -/
def asciiPlatform : Platform where
  isupper _ := false
  tolower c := c
  toU64 x := UInt64.ofNat ⌊x⌋₊
  toU64_eq x hpos hlt := by
    have hfloor : ⌊x⌋₊ < 2 ^ 64 := (Nat.floor_lt hpos).mpr (by exact_mod_cast hlt)
    exact UInt64.toNat_ofNat_of_lt' hfloor

theorem isDouble_natCast {n : Nat} (h : n < 2 ^ 53) : IsDouble n :=
  ⟨n, 0, by rw [Nat.abs_cast]; exact_mod_cast h, by simp⟩

/-- A table with the given number of rows, and with a primary key on its first column or none. -/
def baseTable (relid rows : Nat) (primaryKey : Bool) (h : rows < 2 ^ 53) : RelOptInfo Unit where
  reloptkind := .baserel
  relids := [relid]
  rows := rows
  indexlist := if primaryKey then [⟨true, true, [1], []⟩] else []
  rows_double := isDouble_natCast h
  relids_base _ := ⟨relid, rfl⟩

/-- `int4eq` between the first columns. -/
def firstColumnsEqual : ListNode Unit :=
  .restrictInfo ⟨.opExpr 96 [.var ⟨2, 1, int4Oid⟩, .var ⟨1, 1, int4Oid⟩], 96⟩

/-- Only the outer table has a primary key. -/
def keyedOuter (outerRows : Nat) (h : outerRows < 2 ^ 53) : JoinInput Unit where
  outerrel := baseTable 1 outerRows true h
  innerrel := baseTable 2 1000 false (by decide)
  jointype := .inner
  restrictlist := [firstColumnsEqual]
  disjoint := by simp [baseTable]
  vars_mem := by simp [baseTable, firstColumnsEqual, ListNode.vars]

theorem keyedOuter_path {outerRows : Nat} (h : outerRows < 2 ^ 53) (hle : outerRows ≤ 12288) :
    fpgaPlannerHook asciiPlatform {} (keyedOuter outerRows h) =
      some ⟨.int32, 1, 1, (keyedOuter outerRows h).innerrel, (keyedOuter outerRows h).outerrel⟩ := by
  have hkey : findEquijoinKey (keyedOuter outerRows h).restrictlist (keyedOuter outerRows h).innerrel
      (keyedOuter outerRows h).outerrel = some ⟨1, int4Oid, 1, 1⟩ := rfl
  have hB : fpgaAlgorithmIsB asciiPlatform (some (cstr "a")) = false := by decide
  have hvalid : fpgaAlgorithmIsValid asciiPlatform (some (cstr "a")) = true := by decide
  have hinner : sizeFits asciiPlatform {} (keyedOuter outerRows h).innerrel
      (keyedOuter outerRows h).outerrel = true := by
    rw [sizeFits, hB]
    norm_num [keyedOuter, baseTable]
  have houter : sizeFits asciiPlatform {} (keyedOuter outerRows h).outerrel
      (keyedOuter outerRows h).innerrel = true := by
    rw [sizeFits, hB]
    simpa [keyedOuter, baseTable] using hle
  have hmin : ¬ (keyedOuter outerRows h).innerrel.rows < (100 : Nat) := by
    norm_num [keyedOuter, baseTable]
  have hoffload : fpgaIsOffloadable asciiPlatform {} (keyedOuter outerRows h) =
      some ⟨.int32, 1, 1⟩ :=
    fpgaIsOffloadable_of rfl hvalid rfl hkey rfl hinner hmin ⟨rfl, rfl⟩
  have hnot : (!relJoinkeyIsUnique (keyedOuter outerRows h).innerrel 1) = true := rfl
  have hunique : relJoinkeyIsUnique (keyedOuter outerRows h).outerrel 1 = true := rfl
  rw [fpgaPlannerHook, hoffload, Option.bind_eq_bind, Option.bind_some, if_pos hnot,
    guard_bind hunique, guard_bind houter]
  rfl

/-- With the default settings a build side of 5 rows is offloaded, although 100 are asked for. -/
theorem small_side_offloaded :
    ∃ path, fpgaPlannerHook asciiPlatform {} (keyedOuter 5 (by decide)) = some path ∧
      ¬ MeetsConditions asciiPlatform {} (keyedOuter 5 (by decide)) path := by
  refine ⟨_, keyedOuter_path (by decide) (by decide), fun hm => ?_⟩
  have hrows : ((100 : Nat) : ℚ) ≤ (5 : Nat) := hm.min_rows
  norm_num at hrows

theorem offload_conditions_iff_keyedOuter :
    ∃ path, fpgaPlannerHook asciiPlatform {} (keyedOuter 200 (by decide)) = some path ∧
      MeetsConditions asciiPlatform {} (keyedOuter 200 (by decide)) path := by
  refine ⟨_, keyedOuter_path (by decide) (by decide), ?_⟩
  rw [offload_conditions_iff _ _ _ (keyedOuter_path (by decide) (by decide))]
  have hrows : (keyedOuter 200 (by decide)).outerrel.rows = 200 := rfl
  have hmin : ((({} : Gucs).fpgaMinInnerRows : ℕ) : ℚ) = 100 := rfl
  rw [hrows, hmin]
  exact ⟨fun _ => by norm_num, fun _ => by norm_num⟩

end FpgaHashJoin.Pg
