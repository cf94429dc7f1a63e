import FpgaHashJoin.Pg.Adapter

/-!
# The plan and its execution

`plan_fpga_custom_path` makes a plan of the path, and `fpga_executor.c` runs it: both sides are
drained, the adapter joins them on one key, and the rows of every pair are fetched by their
identifiers. The clauses of the join are not in the plan. Its only filter is the key, so that a row
that is emitted satisfies the other clauses only if equal keys are enough for them
(`clauses_enforced_iff`).

What a clause means is an interpretation; all that is asked of it is that an equality operator which
can be hashed holds for equal integers.
-/

namespace FpgaHashJoin.Pg

open EquiJoin

/-! ## Rows -/

abbrev Datum := UInt64

/-- A row, by the numbers of its columns. -/
abbrev HeapRow := Int → Option Datum

/-- `DatumGetInt32` or `DatumGetInt64`, as a key of the adapter. -/
def keyOfDatum : KeyType → Datum → Int64
  | .int32, d => d.toUInt32.toInt32.toInt64
  | .int64, d => d.toInt64

/-- One side of the join: what its scan returns, and what a fetch by identifier finds under the
snapshot of the statement, which is the row that has been scanned or none. -/
structure Side where
  scan : List (Tid × HeapRow)
  fetch : Tid → Option HeapRow
  coherent : ∀ x ∈ scan, fetch x.1 = none ∨ fetch x.1 = some x.2

def drainPlan (scan : List (Tid × HeapRow)) (keyAttno : Int) (keyType : KeyType) :
    List InputTuple :=
  scan.filterMap fun x => (x.2 keyAttno).map fun d => (keyOfDatum keyType d, x.1)

/-! ## The plan -/

section Plan

variable {ε : Type}

/-- The plan; the target list has columns of the two relations only. -/
structure CustomScan (ε : Type) where
  customScanTlist : List Var
  qual : List (ListNode ε)
  customPrivate : KeyType × Int × Int
  outerRtindex : Nat

def planFpgaCustomPath (path : CustomPath ε) (tlist : List Var) (_clauses : List (ListNode ε)) :
    CustomScan ε where
  customScanTlist := tlist
  qual := []
  customPrivate := (path.keyType, path.innerAttno, path.outerAttno)
  outerRtindex := path.outerPath.relids.headD 0

/-! ## The execution -/

/-- A row that is emitted: the rows it is made of, and its columns. -/
structure EmittedRow where
  inner : HeapRow
  outer : HeapRow
  slot : List (Option Datum)

/-- `exec_custom_scan`, from the cursor on. -/
def execCustomScan (plan : CustomScan ε) (inner outer : Side) :
    List ResultPair → Option (EmittedRow × List ResultPair)
  | [] => none
  | pair :: rest =>
    match inner.fetch pair.innerTid, outer.fetch pair.outerTid with
    | some i, some o =>
      let slot := plan.customScanTlist.map fun var =>
        (if var.varno = plan.outerRtindex then o else i) var.varattno
      some (⟨i, o, slot⟩, rest)
    | _, _ => execCustomScan plan inner outer rest

/-- The rows of the calls until the end of the results. -/
inductive Emits (plan : CustomScan ε) (inner outer : Side) : List ResultPair → EmittedRow → Prop
  | now {pairs rest : List ResultPair} {row : EmittedRow}
      (h : execCustomScan plan inner outer pairs = some (row, rest)) :
      Emits plan inner outer pairs row
  | later {pairs rest : List ResultPair} {row row' : EmittedRow}
      (h : execCustomScan plan inner outer pairs = some (row', rest))
      (hrest : Emits plan inner outer rest row) : Emits plan inner outer pairs row

/-- What one call does: pairs without rows are passed over. -/
theorem execCustomScan_eq_some {plan : CustomScan ε} {inner outer : Side}
    {pairs rest : List ResultPair} {row : EmittedRow}
    (h : execCustomScan plan inner outer pairs = some (row, rest)) :
    rest ⊆ pairs ∧ ∃ pair ∈ pairs, inner.fetch pair.innerTid = some row.inner ∧
      outer.fetch pair.outerTid = some row.outer := by
  induction pairs with
  | nil => cases h
  | cons pair pairs ih =>
    rw [execCustomScan] at h
    split at h
    next i o hi ho =>
      obtain ⟨rfl, rfl⟩ := Prod.mk.inj (Option.some.inj h)
      exact ⟨List.subset_cons_self _ _, pair, List.mem_cons_self, hi, ho⟩
    next =>
      obtain ⟨hsub, pair', hmem, hfetch⟩ := ih h
      exact ⟨List.Subset.trans hsub (List.subset_cons_self _ _), pair', List.mem_cons_of_mem _ hmem,
        hfetch⟩

/-- **An emitted row comes from a pair of the results.** -/
theorem Emits.pair {plan : CustomScan ε} {inner outer : Side} {pairs : List ResultPair}
    {row : EmittedRow} (h : Emits plan inner outer pairs row) :
    ∃ pair ∈ pairs, inner.fetch pair.innerTid = some row.inner ∧
      outer.fetch pair.outerTid = some row.outer := by
  induction h with
  | now h => exact (execCustomScan_eq_some h).2
  | later h _ ih =>
    obtain ⟨pair, hmem, hfetch⟩ := ih
    exact ⟨pair, (execCustomScan_eq_some h).1 hmem, hfetch⟩

/-- Two sides with the results of their join on the keys of the path. -/
structure JoinRun (path : CustomPath ε) where
  inner : Side
  outer : Side
  pairs : List ResultPair
  joined : pairs.Perm
    (join (dedupInner (drainPlan inner.scan path.innerAttno path.keyType))
      (drainPlan outer.scan path.outerAttno path.keyType))

/-- The keys of two rows are there and equal. -/
def EqualKeys (path : CustomPath ε) (i o : HeapRow) : Prop :=
  ∃ a b, i path.innerAttno = some a ∧ o path.outerAttno = some b ∧
    keyOfDatum path.keyType a = keyOfDatum path.keyType b

/-- A drained key is the key of a row of the scan. -/
theorem exists_row_of_mem_drainPlan {side : Side} {attno : Int} {keyType : KeyType} {key : Int64}
    {tid : Tid} {row : HeapRow} (h : (key, tid) ∈ drainPlan side.scan attno keyType)
    (hfetch : side.fetch tid = some row) :
    ∃ d, row attno = some d ∧ keyOfDatum keyType d = key := by
  obtain ⟨x, hx, hkey⟩ := List.mem_filterMap.mp h
  obtain ⟨d, hd, heq⟩ := Option.map_eq_some_iff.mp hkey
  obtain ⟨rfl, rfl⟩ := Prod.mk.inj heq
  rcases side.coherent x hx with hnone | hsome
  · rw [hfetch] at hnone
    cases hnone
  · obtain rfl := Option.some.inj (hfetch.symm.trans hsome)
    exact ⟨d, hd, rfl⟩

/-- **Emitted rows have equal keys.** -/
theorem JoinRun.equalKeys {path : CustomPath ε} (run : JoinRun path) {plan : CustomScan ε}
    {row : EmittedRow} (h : Emits plan run.inner run.outer run.pairs row) :
    EqualKeys path row.inner row.outer := by
  obtain ⟨pair, hpair, hi, ho⟩ := h.pair
  obtain ⟨key, hinner, houter⟩ := exists_key_of_mem_join (run.joined.subset hpair)
  obtain ⟨a, ha, hka⟩ := exists_row_of_mem_drainPlan (dedupInner_subset _ hinner) hi
  obtain ⟨b, hb, hkb⟩ := exists_row_of_mem_drainPlan houter ho
  exact ⟨a, b, ha, hb, hka.trans hkb.symm⟩

/-- A table with one row. -/
def oneRow (row : HeapRow) : Side where
  scan := [(⟨0, 1⟩, row)]
  fetch _ := some row
  coherent x hx := by
    rw [List.mem_singleton.mp hx]
    exact Or.inr rfl

def oneRowRun (path : CustomPath ε) {i o : HeapRow} (h : EqualKeys path i o) : JoinRun path where
  inner := oneRow i
  outer := oneRow o
  pairs := [(⟨0, 1⟩, ⟨0, 1⟩)]
  joined := by
    obtain ⟨a, b, ha, hb, hkey⟩ := h
    simp [drainPlan, oneRow, ha, hb, dedupInner, join, firstMatch, hkey]

theorem oneRowRun_emits (path : CustomPath ε) {i o : HeapRow} (h : EqualKeys path i o)
    (plan : CustomScan ε) :
    ∃ row, Emits plan (oneRowRun path h).inner (oneRowRun path h).outer (oneRowRun path h).pairs row ∧
      row.inner = i ∧ row.outer = o :=
  ⟨_, .now rfl, rfl, rfl⟩

end Plan

/-! ## Clauses -/

section Clauses

variable {ε : Type}

/-- The meaning of clauses for given rows of the relations: whether they are true. -/
structure Interpretation (ε : Type) where
  holds : ListNode ε → (Nat → HeapRow) → Bool
  equality : ∀ (opno oper : Oid) (v w : Var) (rows : Nat → HeapRow) (keyType : KeyType) (a b : Datum),
    oper ≠ 0 → keyTypeOf v.vartype = some keyType → w.vartype = v.vartype →
    rows v.varno v.varattno = some a → rows w.varno w.varattno = some b →
    keyOfDatum keyType a = keyOfDatum keyType b →
    holds (.restrictInfo ⟨.opExpr opno [.var v, .var w], oper⟩) rows = true

/-- The rows of two relations; no other relation has one. -/
def rowsOf (inner outer : RelOptInfo ε) (i o : HeapRow) (varno : Nat) : HeapRow :=
  if varno ∈ inner.relids then i else if varno ∈ outer.relids then o else fun _ => none

/-- The rows of the two sides of a path. -/
def rowsOfPair (path : CustomPath ε) : HeapRow → HeapRow → Nat → HeapRow :=
  rowsOf path.innerPath path.outerPath

/-- The columns that `find_equijoin_key` has found are there in both rows, and have one key. -/
def KeysAgree (k : KeyScan) (keyType : KeyType) (i o : HeapRow) : Prop :=
  ∃ a b, i k.innerAttno = some a ∧ o k.outerAttno = some b ∧
    keyOfDatum keyType a = keyOfDatum keyType b

/-- Every clause of the join is enforced: rows that are emitted and pass the filter of the plan
satisfy all of them. -/
def Enforced (meaning : Interpretation ε) (j : JoinInput ε) (path : CustomPath ε)
    (tlist : List Var) : Prop :=
  ∀ (run : JoinRun path) (row : EmittedRow),
    Emits (planFpgaCustomPath path tlist j.restrictlist) run.inner run.outer run.pairs row →
    (∀ q ∈ (planFpgaCustomPath path tlist j.restrictlist).qual,
      meaning.holds q (rowsOfPair path row.inner row.outer) = true) →
    ∀ c ∈ j.restrictlist, meaning.holds c (rowsOfPair path row.inner row.outer) = true

/-- The equality that the key comes from holds for equal keys. -/
theorem key_clause_holds (meaning : Interpretation ε) {p : Platform} {g : Gucs} {j : JoinInput ε}
    {path : CustomPath ε} (h : fpgaPlannerHook p g j = some path) {c : ListNode ε}
    (hc : c ∈ j.restrictlist) {vs : Var × Var} (hvs : equiVars c = some vs) {i o : HeapRow}
    (hkeys : EqualKeys path i o) : meaning.holds c (rowsOfPair path i o) = true := by
  obtain ⟨k, ty, hk, hty, -, -, hbase, hbase', hpath⟩ := fpgaPlannerHook_cases h
  have hkey := findEquijoinKey_isJoinKey hk hbase hbase'
  -- the columns of the path and its sides, whichever of them is the build side
  have hpathkey : path.keyType = ty ∧ IsJoinKey j.restrictlist path.innerPath path.outerPath k.keyOid
      path.innerAttno path.outerAttno ∧ ∀ r ∈ path.outerPath.relids, r ∉ path.innerPath.relids := by
    rcases hpath with ⟨-, rfl⟩ | ⟨-, -, -, rfl⟩
    · exact ⟨rfl, hkey, fun r hr hr' => j.disjoint r hr' hr⟩
    · exact ⟨rfl, hkey.swap, j.disjoint⟩
  obtain ⟨rfl, ⟨d, hd, v, w, hvars, hv, hw, htv, htw, hav, haw⟩, hdisjoint⟩ := hpathkey
  obtain ⟨a, b, ha, hb, hab⟩ := hkeys
  have hrowv : rowsOfPair path i o v.varno v.varattno = some a := by
    rw [rowsOfPair, rowsOf, if_pos hv, hav]
    exact ha
  have hroww : rowsOfPair path i o w.varno w.varattno = some b := by
    rw [rowsOfPair, rowsOf, if_neg (hdisjoint _ hw), if_pos hw, haw]
    exact hb
  rw [← htv] at hty
  rcases hvars with hvars | hvars
  · obtain rfl := findEquijoinKey_only hk hc hvs hd hvars
    obtain ⟨-, -, opno, oper, hoper, rfl⟩ := equiVars_eq_some hvs
    exact meaning.equality opno oper v w _ _ a b hoper hty (htw.trans htv.symm) hrowv hroww hab
  · obtain rfl := findEquijoinKey_only hk hc hvs hd hvars
    obtain ⟨-, -, opno, oper, hoper, rfl⟩ := equiVars_eq_some hvs
    have hty' : keyTypeOf w.vartype = some path.keyType := by rw [htw, ← htv, hty]
    exact meaning.equality opno oper w v _ _ b a hoper hty' (htv.trans htw.symm) hroww hrowv hab.symm

theorem rowsOf_swap {inner outer : RelOptInfo ε} (h : ∀ r ∈ inner.relids, r ∉ outer.relids)
    (i o : HeapRow) : rowsOf outer inner o i = rowsOf inner outer i o := by
  funext varno
  unfold rowsOf
  by_cases hi : varno ∈ inner.relids
  · rw [if_neg (h varno hi), if_pos hi, if_pos hi]
  · rw [if_neg hi, if_neg hi]

/-- The pairs of the plan are the pairs of rows of the join whose columns agree, whichever
relation has become the build side. -/
theorem forall_equalKeys_iff {j : JoinInput ε} {k : KeyScan} {ty : KeyType} {path : CustomPath ε}
    (hpath : path = ⟨ty, k.innerAttno, k.outerAttno, j.outerrel, j.innerrel⟩ ∨
      path = ⟨ty, k.outerAttno, k.innerAttno, j.innerrel, j.outerrel⟩)
    (P : (Nat → HeapRow) → Prop) :
    (∀ i o, EqualKeys path i o → P (rowsOfPair path i o)) ↔
      ∀ i o, KeysAgree k ty i o → P (rowsOf j.innerrel j.outerrel i o) := by
  rcases hpath with rfl | rfl
  · exact Iff.rfl
  · constructor
    · rintro h i o ⟨a, b, ha, hb, hab⟩
      rw [← rowsOf_swap j.disjoint]
      exact h o i ⟨b, a, hb, ha, hab.symm⟩
    · rintro h o i ⟨b, a, hb, ha, hab⟩
      rw [rowsOfPair, rowsOf_swap j.disjoint]
      exact h i o ⟨a, b, ha, hb, hab.symm⟩

/-- The clauses are enforced if and only if those that have been passed over hold for all rows
with equal keys. -/
theorem enforced_iff (meaning : Interpretation ε) {p : Platform} {g : Gucs} {j : JoinInput ε}
    {tlist : List Var} {path : CustomPath ε} (h : fpgaPlannerHook p g j = some path) :
    Enforced meaning j path tlist ↔
      ∀ c ∈ j.restrictlist, equiVars c = none → ∀ i o, EqualKeys path i o →
        meaning.holds c (rowsOfPair path i o) = true := by
  constructor
  · intro henforced c hc _ i o hkeys
    obtain ⟨row, hemits, rfl, rfl⟩ :=
      oneRowRun_emits path hkeys (planFpgaCustomPath path tlist j.restrictlist)
    exact henforced (oneRowRun path hkeys) row hemits nofun c hc
  · intro hpassed run row hemits _ c hc
    have hkeys := run.equalKeys hemits
    cases hvs : equiVars c with
    | none => exact hpassed c hc hvs _ _ hkeys
    | some vs => exact key_clause_holds meaning h hc hvs hkeys

/-- **When the clauses of an offloaded join are enforced.** For every mix of clauses, every pair of
relations and all settings: whenever the hook adds a path, `find_equijoin_key` has found one pair of
columns, and rows that the plan emits satisfy every clause if and only if each clause that it has
passed over holds for all rows of the two relations that agree in these columns. -/
theorem clauses_enforced_iff (meaning : Interpretation ε) (p : Platform) (g : Gucs)
    (j : JoinInput ε) (tlist : List Var) {path : CustomPath ε}
    (h : fpgaPlannerHook p g j = some path) :
    ∃ k ty, findEquijoinKey j.restrictlist j.innerrel j.outerrel = some k ∧
      keyTypeOf k.keyOid = some ty ∧
      (Enforced meaning j path tlist ↔
        ∀ c ∈ j.restrictlist, equiVars c = none → ∀ i o, KeysAgree k ty i o →
          meaning.holds c (rowsOf j.innerrel j.outerrel i o) = true) := by
  obtain ⟨k, ty, hk, hty, -, -, -, -, hcases⟩ := fpgaPlannerHook_cases h
  have hpath : path = ⟨ty, k.innerAttno, k.outerAttno, j.outerrel, j.innerrel⟩ ∨
      path = ⟨ty, k.outerAttno, k.innerAttno, j.innerrel, j.outerrel⟩ :=
    hcases.imp And.right fun hswap => hswap.2.2.2
  refine ⟨k, ty, hk, hty, (enforced_iff meaning h).trans ?_⟩
  refine forall_congr' fun c => forall_congr' fun _ => forall_congr' fun _ => ?_
  exact forall_equalKeys_iff hpath fun rows => meaning.holds c rows = true

end Clauses

/-! ## A second clause -/

/-- `int4lt` and `int4le` of two columns, and every other clause is true. -/
def lessMeaning : Interpretation Unit where
  holds
    | .restrictInfo ⟨.opExpr opno [.var v, .var w], oper⟩, rows =>
      if oper ≠ 0 ∨ opno ≠ 97 ∧ opno ≠ 523 then true
      else
        match rows v.varno v.varattno, rows w.varno w.varattno with
        | some a, some b =>
          if opno = 97 then decide (keyOfDatum .int32 a < keyOfDatum .int32 b)
          else decide (keyOfDatum .int32 a ≤ keyOfDatum .int32 b)
        | _, _ => false
    | _, _ => true
  equality := by
    intro opno oper v w rows keyType a b hoper _ _ _ _ _
    exact if_pos (Or.inl hoper)

def secondColumnsLess : ListNode Unit :=
  .restrictInfo ⟨.opExpr 97 [.var ⟨2, 2, int4Oid⟩, .var ⟨1, 2, int4Oid⟩], 0⟩

def firstColumnsLessEqual : ListNode Unit :=
  .restrictInfo ⟨.opExpr 523 [.var ⟨2, 1, int4Oid⟩, .var ⟨1, 1, int4Oid⟩], 0⟩

theorem holds_lessEqual {rows : Nat → HeapRow} {a b : Datum} (ha : rows 2 1 = some a)
    (hb : rows 1 1 = some b) : lessMeaning.holds firstColumnsLessEqual rows =
      decide (keyOfDatum .int32 a ≤ keyOfDatum .int32 b) := by
  simp [lessMeaning, firstColumnsLessEqual, ha, hb]

theorem thousand_double : 1000 < 2 ^ 53 := by decide

/-- The join on the first columns, with one more clause about the two tables. -/
def withClause (more : ListNode Unit) (h : ∀ v ∈ more.vars, v.varno = 2 ∨ v.varno = 1) :
    JoinInput Unit where
  outerrel := baseTable 1 1000 false thousand_double
  innerrel := baseTable 2 1000 true thousand_double
  jointype := .inner
  restrictlist := [firstColumnsEqual, more]
  disjoint := by simp [baseTable]
  vars_mem := by
    intro c hc v hv
    rcases List.mem_cons.mp hc with rfl | hc
    · revert v
      simp [baseTable, firstColumnsEqual, ListNode.vars]
    · rw [List.mem_singleton.mp hc] at hv
      simpa [baseTable] using h v hv

/-- The clause does not change the path. -/
def firstColumnPath : CustomPath Unit :=
  ⟨.int32, 1, 1, baseTable 1 1000 false thousand_double, baseTable 2 1000 true thousand_double⟩

theorem withClause_path {more : ListNode Unit} {h : ∀ v ∈ more.vars, v.varno = 2 ∨ v.varno = 1}
    (hkey : findEquijoinKey (withClause more h).restrictlist (withClause more h).innerrel
      (withClause more h).outerrel = some ⟨1, int4Oid, 1, 1⟩) :
    fpgaPlannerHook asciiPlatform {} (withClause more h) = some firstColumnPath := by
  have hB : fpgaAlgorithmIsB asciiPlatform (some (cstr "a")) = false := by decide
  have hvalid : fpgaAlgorithmIsValid asciiPlatform (some (cstr "a")) = true := by decide
  have hsize : sizeFits asciiPlatform {} (withClause more h).innerrel
      (withClause more h).outerrel = true := by
    rw [sizeFits, hB]
    norm_num [withClause, baseTable]
  have hmin : ¬ (withClause more h).innerrel.rows < (100 : Nat) := by
    norm_num [withClause, baseTable]
  have hoffload : fpgaIsOffloadable asciiPlatform {} (withClause more h) =
      some ⟨.int32, 1, 1⟩ :=
    fpgaIsOffloadable_of rfl hvalid rfl hkey rfl hsize hmin ⟨rfl, rfl⟩
  have hunique : ¬ (!relJoinkeyIsUnique (withClause more h).innerrel 1) = true := Bool.false_ne_true
  rw [fpgaPlannerHook, hoffload, Option.bind_eq_bind, Option.bind_some, if_neg hunique]
  rfl

/-- A row with the key 1 and the given second column. -/
def keyedRow (second : Datum) : HeapRow := fun attno => some (if attno = 1 then 1 else second)

/-- `a.k = b.k AND a.v < b.v`: the path is added, and rows with `9 < 5` are emitted. -/
theorem second_clause_lost :
    ∃ j : JoinInput Unit, fpgaPlannerHook asciiPlatform {} j = some firstColumnPath ∧
      ¬ Enforced lessMeaning j firstColumnPath [] := by
  refine ⟨withClause secondColumnsLess (by decide), withClause_path rfl, fun henforced => ?_⟩
  have hkeys : EqualKeys firstColumnPath (keyedRow 9) (keyedRow 5) := ⟨1, 1, rfl, rfl, rfl⟩
  obtain ⟨row, hemits, hi, ho⟩ := oneRowRun_emits firstColumnPath hkeys
    (planFpgaCustomPath firstColumnPath [] (withClause secondColumnsLess (by decide)).restrictlist)
  have hless := henforced (oneRowRun firstColumnPath hkeys) row hemits nofun secondColumnsLess
    (by simp [withClause])
  rw [hi, ho] at hless
  exact absurd hless (by decide)

/-- `a.k = b.k AND a.k <= b.k`: the second clause is passed over, and equal keys are enough for it. -/
theorem clauses_enforced_iff_lessEqual :
    fpgaPlannerHook asciiPlatform {} (withClause firstColumnsLessEqual (by decide)) =
        some firstColumnPath ∧
      equiVars firstColumnsLessEqual = none ∧
      Enforced lessMeaning (withClause firstColumnsLessEqual (by decide)) firstColumnPath [] := by
  have hpath : fpgaPlannerHook asciiPlatform {} (withClause firstColumnsLessEqual (by decide)) =
      some firstColumnPath := withClause_path rfl
  refine ⟨hpath, rfl, ?_⟩
  obtain ⟨k, ty, hk, hty, hiff⟩ := clauses_enforced_iff lessMeaning asciiPlatform {} _ [] hpath
  obtain rfl : ⟨1, int4Oid, 1, 1⟩ = k := Option.some.inj hk
  obtain rfl : KeyType.int32 = ty := Option.some.inj hty
  refine hiff.mpr ?_
  rintro c hc hvs i o ⟨a, b, ha, hb, hab⟩
  rcases List.mem_cons.mp hc with rfl | hc
  · cases hvs
  · rw [List.mem_singleton.mp hc]
    rw [holds_lessEqual ha hb]
    exact decide_eq_true (Int64.le_of_eq hab)

end FpgaHashJoin.Pg
