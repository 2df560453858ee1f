import PostgressRs.Executor.Evaluation
import PostgressRs.Executor.PartitionRouting

/-!
Pruned partitions hold no row that a condition accepts: the equality taken out of the condition
is true of every accepted row.
-/

namespace PostgressRs.Executor.PartitionPruning

open PostgressRs.Executor.Evaluation
open PostgressRs.Executor.PartitionRouting
open PostgressRs.Security.RowSecurity (boolText parseBool parseBool_eq_true)
open PostgressRs.Sql.Ast
open PostgressRs.Types

section Conditions

variable [Scalars] {row : List String} {desc : Option TupleDesc}

/-- The results that `evaluate_where` takes as true. -/
def Accepted (result : String) : Prop := result = "true" ∨ result = "t"

instance (result : String) : Decidable (Accepted result) := inferInstanceAs (Decidable (_ ∨ _))

omit [Scalars] in
theorem accepted_boolText {b : Bool} : Accepted (boolText b) ↔ b = true := by
  cases b with
  | false => exact iff_of_false (by decide) Bool.false_ne_true
  | true => exact iff_of_true (.inl rfl) rfl

theorem evaluateWhere_iff {whereClause : Expr} :
    evaluateWhere row desc whereClause = true ↔
      ∃ result, evaluateExpr row desc whereClause = some result ∧ Accepted result := by
  rw [evaluateWhere]
  cases evaluateExpr row desc whereClause with
  | none => exact iff_of_false Bool.false_ne_true nofun
  | some result =>
      show decide (Accepted result) = true ↔ _
      rw [decide_eq_true_iff]
      exact ⟨fun h => ⟨result, rfl, h⟩, fun ⟨_, heq, h⟩ => Option.some.inj heq ▸ h⟩

theorem evaluateExpr_binaryOp {left right : Expr} {op : BinaryOperator} {result : String} :
    evaluateExpr row desc (.binaryOp left op right) = some result ↔
      ∃ l r, evaluateExpr row desc left = some l ∧ evaluateExpr row desc right = some r ∧
        binaryResult op l r = some result := by
  simp only [evaluateExpr, Option.bind_eq_bind, Option.bind_eq_some_iff]
  constructor
  · rintro ⟨l, hl, r, hr, hresult⟩
    exact ⟨l, r, hl, hr, hresult⟩
  · rintro ⟨l, r, hl, hr, hresult⟩
    exact ⟨l, hl, r, hr, hresult⟩

omit [Scalars] in
theorem connective_and {l r result : String} (h : connective and l r = some result)
    (haccepted : Accepted result) : l = "true" ∧ r = "true" := by
  simp only [connective, Option.bind_eq_bind, Option.bind_eq_some_iff] at h
  obtain ⟨a, ha, b, hb, hresult⟩ := h
  obtain rfl := Option.some.inj hresult
  obtain ⟨rfl, rfl⟩ := Bool.and_eq_true_iff.mp (accepted_boolText.mp haccepted)
  exact ⟨parseBool_eq_true.mp ha, parseBool_eq_true.mp hb⟩

/-- Both sides of an equality that is taken out of a condition. -/
theorem evaluateExpr_equalitySides {left right : Expr} {col value : String}
    (h : equalitySides left right = some (col, value)) :
    evaluateExpr row desc left = columnValue row desc col ∧
      evaluateExpr row desc right = some value := by
  cases left with
  | identifier name =>
      cases right with
      | literal lit =>
          obtain ⟨text, htext, heq⟩ := Option.map_eq_some_iff.mp h
          obtain ⟨rfl, rfl⟩ := Prod.mk.inj heq
          refine ⟨by rw [evaluateExpr], ?_⟩
          rw [evaluateExpr]
          cases lit with
          | number n => exact htext
          | string s => exact htext
          | bool b => cases htext
          | null => cases htext
      | _ => cases h
  | _ => cases h

/-- The equality of an accepted condition is true of the row. -/
theorem columnValue_of_accepted {expr : Expr} {col value result : String}
    (h : extractEqualityPredicate expr = some (col, value))
    (heval : evaluateExpr row desc expr = some result) (haccepted : Accepted result) :
    columnValue row desc col = some value := by
  induction expr using extractEqualityPredicate.induct generalizing result with
  | case1 left right =>
      rw [extractEqualityPredicate] at h
      obtain ⟨l, r, hl, hr, hresult⟩ := evaluateExpr_binaryOp.mp heval
      obtain rfl := Option.some.inj hresult
      obtain rfl : l = r := of_decide_eq_true (accepted_boolText.mp haccepted)
      obtain ⟨hleft, hright⟩ := evaluateExpr_equalitySides h
      rw [← hleft, hl, ← hr, hright]
  | case2 left right ihleft ihright =>
      rw [extractEqualityPredicate, Option.or_eq_some_iff] at h
      obtain ⟨l, r, hl, hr, hresult⟩ := evaluateExpr_binaryOp.mp heval
      obtain ⟨rfl, rfl⟩ := connective_and hresult haccepted
      rcases h with hfirst | ⟨-, hsecond⟩
      · exact ihleft hfirst hl (.inl rfl)
      · exact ihright hsecond hr (.inl rfl)
  | case3 left right op hequals hand =>
      rw [extractEqualityPredicate] at h
      cases h
      all_goals assumption
  | case4 expr hother =>
      rw [extractEqualityPredicate] at h
      cases h
      exact hother

end Conditions

section Columns

variable {row : List String} {desc : TupleDesc}

/-- No two names of columns are the same up to case. -/
def DistinctNames (desc : TupleDesc) : Prop :=
  desc.fields.Pairwise fun f g => eqIgnoreAsciiCase f.name g.name = false

instance (desc : TupleDesc) : Decidable (DistinctNames desc) :=
  inferInstanceAs (Decidable (desc.fields.Pairwise _))

theorem eqIgnoreAsciiCase_iff {a b : String} :
    eqIgnoreAsciiCase a b = true ↔ a.toList.map Char.toLower = b.toList.map Char.toLower :=
  decide_eq_true_iff

/-- The value at a place is the one that the name of the place finds. -/
theorem columnValue_eq (hnames : DistinctNames desc) {i : Nat} {field : Attribute} {col : String}
    (hfield : desc.fields[i]? = some field) (hname : eqIgnoreAsciiCase field.name col = true) :
    columnValue row (some desc) col = row[i]? := by
  obtain ⟨hi, rfl⟩ := List.getElem?_eq_some_iff.mp hfield
  have hfind : (desc.fields.findIdx? fun field => eqIgnoreAsciiCase field.name col) = some i := by
    rw [List.findIdx?_eq_some_iff_getElem]
    refine ⟨hi, hname, ?_⟩
    intro j hj hbefore
    have hdistinct := List.pairwise_iff_getElem.mp hnames j i (hj.trans hi) hi hj
    have hsame : eqIgnoreAsciiCase desc.fields[j].name desc.fields[i].name = true :=
      eqIgnoreAsciiCase_iff.mpr ((eqIgnoreAsciiCase_iff.mp hbefore).trans
        (eqIgnoreAsciiCase_iff.mp hname).symm)
    rw [hdistinct] at hsame
    cases hsame
  rw [columnValue, Option.bind_some, hfind, Option.bind_some]

end Columns

section Partitions

theorem mem_of_findChecked {test : PartitionEntry → Checked Bool} {entries : List PartitionEntry}
    {entry : PartitionEntry} (h : findChecked test entries = some (some entry)) :
    entry ∈ entries := by
  induction entries with
  | nil => cases Option.some.inj h
  | cons first entries ih =>
      rw [findChecked, Option.bind_eq_bind, Option.bind_eq_some_iff] at h
      obtain ⟨passed, -, hrest⟩ := h
      cases passed with
      | true =>
          obtain rfl : first = entry := Option.some.inj (Option.some.inj hrest)
          exact List.mem_cons_self
      | false => exact List.mem_cons_of_mem _ (ih hrest)

theorem mem_of_findPartitionForValue {manager : PartitionManager} {value : String}
    {entry : PartitionEntry} (h : manager.findPartitionForValue value = some (some entry)) :
    entry ∈ manager.partitions := by
  rw [PartitionManager.findPartitionForValue] at h
  cases hstrategy : manager.strategy with
  | range =>
      rw [hstrategy] at h
      exact List.mem_of_find?_eq_some (Option.some.inj h)
  | list =>
      rw [hstrategy] at h
      exact List.mem_of_find?_eq_some (Option.some.inj h)
  | hash =>
      rw [hstrategy] at h
      exact mem_of_findChecked h

variable [Scalars] {manager : PartitionManager} {desc : TupleDesc} {row : List String}

/-- A row that a condition accepts is in a partition that is kept. -/
theorem pruning_keeps_partition {column value : String} {whereClause : Expr} {i : Nat}
    {field : Attribute} {entry : PartitionEntry} (hcolumn : manager.columns = [column])
    (hnames : DistinctNames desc) (hfield : desc.fields[i]? = some field)
    (hname : eqIgnoreAsciiCase field.name column = true) (hvalue : row[i]? = some value)
    (haccept : evaluateWhere row (some desc) whereClause = true)
    (hroute : manager.findPartitionForValue value = some (some entry)) :
    ∃ oids, prunePartitions (some whereClause) manager = some oids ∧
      entry.partitionOid ∈ oids := by
  have hall : entry.partitionOid ∈ allPartitions manager :=
    List.mem_map_of_mem (mem_of_findPartitionForValue hroute)
  rw [prunePartitions, Option.bind_some]
  cases hextract : extractEqualityPredicate whereClause with
  | none => exact ⟨_, rfl, hall⟩
  | some predicate =>
      obtain ⟨col, literal⟩ := predicate
      show ∃ oids, ite _ _ _ = some oids ∧ _
      split
      · have hmem : col ∈ manager.columns := ‹_›
        rw [hcolumn, List.mem_singleton] at hmem
        subst hmem
        obtain ⟨result, heval, haccepted⟩ := evaluateWhere_iff.mp haccept
        have htrue := columnValue_of_accepted hextract heval haccepted
        rw [columnValue_eq hnames hfield hname, hvalue, Option.some.injEq] at htrue
        rw [← htrue, hroute]
        exact ⟨[entry.partitionOid], rfl, List.mem_singleton.mpr rfl⟩
      · exact ⟨_, rfl, hall⟩

end Partitions

section Regions

attribute [local instance] wholeNumbers

def regions : PartitionManager where
  strategy := .list
  columns := ["region"]
  partitions :=
    [⟨⟨2⟩, .list [⟨["us-east"]⟩]⟩, ⟨⟨3⟩, .list [⟨["eu-west"]⟩]⟩]

def regionColumns : TupleDesc :=
  ⟨[{ name := "id", typeOid := ⟨23⟩, attnum := 0, typmod := -1 },
    { name := "Region", typeOid := ⟨25⟩, attnum := 1, typmod := -1 }]⟩

/-- `region = 'eu-west' AND id = 7`. -/
def inEurope : Expr :=
  .binaryOp (.binaryOp (.identifier "region") .equals (.literal (.string "eu-west"))) .and
    (.binaryOp (.identifier "id") .equals (.literal (.number "7")))

theorem pruning_keeps_partition_region :
    ∃ oids, prunePartitions (some inEurope) regions = some oids ∧ (⟨3⟩ : Oid) ∈ oids := by
  have hnames : DistinctNames regionColumns := by decide +kernel
  have hname : eqIgnoreAsciiCase "Region" "region" = true := by decide +kernel
  have hvalue : ["7", "eu-west"][1]? = some "eu-west" := rfl
  have haccept : evaluateWhere ["7", "eu-west"] (some regionColumns) inEurope = true := by
    decide +kernel
  have hroute : regions.findPartitionForValue "eu-west" =
      some (some ⟨⟨3⟩, .list [⟨["eu-west"]⟩]⟩) := by
    decide +kernel
  exact pruning_keeps_partition rfl hnames rfl hname hvalue haccept hroute

end Regions

end PostgressRs.Executor.PartitionPruning
