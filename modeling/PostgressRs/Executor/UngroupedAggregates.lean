import PostgressRs.Executor.GroupPartition
import PostgressRs.Executor.SelectExecutor
import PostgressRs.Executor.WindowPlacement

/-!
Aggregates over all the rows of a select (`src/executor/select/group_by.rs`,
`src/executor/select/mod.rs`).
-/

namespace PostgressRs.Executor.UngroupedAggregates

open PostgressRs.Executor.Evaluation
open PostgressRs.Executor.GroupPartition
open PostgressRs.Executor.Grouping
open PostgressRs.Executor.HeapAccess (Row)
open PostgressRs.Executor.SelectExecutor
open PostgressRs.Executor.WindowFunctions
open PostgressRs.Executor.WindowPlacement
open PostgressRs.Server.Queries (SelectResult)
open PostgressRs.Sql.Ast
open PostgressRs.Types

section OneGroup

variable [Scalars] (desc : Option TupleDesc)

omit [Scalars] in
theorem foldl_pushRow (key : List String) (rows : List Row) (before : List (List String)) :
    rows.foldl (fun groups row => pushRow key row.2 groups) [(key, before)] =
      [(key, before ++ rows.map Prod.snd)] := by
  induction rows generalizing before with
  | nil => rw [List.map_nil, List.append_nil]; rfl
  | cons row rows ih =>
      have hpush : pushRow key row.2 [(key, before)] = [(key, before ++ [row.2])] := if_pos rfl
      rw [List.foldl_cons, hpush, ih, List.append_assoc]
      rfl

theorem collectGroups_nil {rows : List Row} (h : rows ≠ []) :
    collectGroups desc [] rows = [(["__all__"], rows.map Prod.snd)] := by
  cases rows with
  | nil => exact absurd rfl h
  | cons row rows => exact foldl_pushRow ["__all__"] rows [row.2]

/-- Without a list of keys all rows are one group. -/
theorem applyGroupBy_nil (order : Iteration) {rows : List Row}
    {selectList : List (SelectItem Expr)} (hrows : rows ≠ [])
    (hagg : hasAggregates selectList = true) :
    applyGroupBy desc order rows [] selectList =
      [groupRow desc selectList (["__all__"], rows.map Prod.snd)] := by
  have hvisit : order.visit (collectGroups desc [] rows) = [(["__all__"], rows.map Prod.snd)] := by
    rw [collectGroups_nil desc hrows]
    exact List.perm_singleton.mp (order.perm _)
  have hempty : ¬(([] : List Expr).isEmpty = true ∧ rows.isEmpty = true) :=
    fun h => hrows (List.isEmpty_iff.mp h.2)
  have hlisted : ¬(([] : List Expr).isEmpty = true ∧ (!hasAggregates selectList) = true) := by
    rintro ⟨-, hnone⟩
    rw [hagg] at hnone
    cases hnone
  rw [applyGroupBy, if_neg hempty, if_neg hlisted]
  split
  · rw [hashAggregate, if_neg hempty, hvisit]
    rfl
  · rw [sortAggregate, if_neg hempty, if_neg hlisted, hvisit]
    rfl

theorem hasAggregates_of_countStar {selectList : List (SelectItem Expr)} {j : Nat}
    {item : SelectItem Expr} {call : FunctionCall Expr} (hitem : selectList[j]? = some item)
    (hitemCall : itemCall item = some call) (hcall : IsCountStar call) :
    hasAggregates selectList = true := by
  apply List.any_eq_true.mpr
  refine ⟨item, List.mem_of_getElem? hitem, ?_⟩
  have hagg : exprHasAgg (.function call) = true := by
    rw [exprHasAgg, isAggregate, hcall.1]
    decide
  unfold itemCall at hitemCall
  split at hitemCall
  · cases hitemCall
    exact hagg
  · cases hitemCall
    exact hagg
  · cases hitemCall

theorem isWindow_of_countStar {item : SelectItem Expr} {call : FunctionCall Expr}
    (hitemCall : itemCall item = some call) (hcall : IsCountStar call) :
    isWindow item = false := by
  have hnone (spec : WindowSpec Expr) : givesValues call spec = false := by
    rw [givesValues, hcall.1]
    split <;> decide
  have hwindow : itemWindow item = call.overClause.map fun spec => (call, spec) := by
    unfold itemCall at hitemCall
    split at hitemCall
    · cases hitemCall
      rfl
    · cases hitemCall
      rfl
    · cases hitemCall
  rw [isWindow, hwindow]
  cases call.overClause with
  | none => rfl
  | some spec => exact hnone spec

end OneGroup

section Clauses

variable [Scalars] (context : ExecContext)

theorem applyDistinct_singleton (row : Row) (clause : DistinctClause Expr) :
    applyDistinct context [row] clause = [row] := by
  cases clause with
  | all => rfl
  | distinct => rfl
  | distinctOn exprs => rfl

theorem applyDistinct_nil (clause : DistinctClause Expr) :
    applyDistinct context [] clause = [] := by
  cases clause <;> rfl

theorem length_applyOrderBy (rows : List Row) (orderBy : List (OrderByItem Expr)) :
    (if orderBy.isEmpty then rows else applyOrderBy context rows orderBy).length = rows.length := by
  split
  · rfl
  · exact (List.mergeSort_perm _ _).length_eq

/-- The rows that satisfy the condition of a select. -/
def satisfying (whereClause : Option Expr) (base : List Row) : List Row :=
  whereClause.elim base (applyWhere context base)

variable (order : Iteration) {base : List Row} {distinctClause : DistinctClause Expr}
  {selectList : List (SelectItem Expr)} {fromClause : Option (FromClause Expr SelectStatement)}
  {whereClause : Option Expr} {orderBy : List (OrderByItem Expr)}
  {locking : List LockingClause}

/-- A select without groups, bounds and operations. -/
def plainSelect (distinctClause : DistinctClause Expr) (selectList : List (SelectItem Expr))
    (fromClause : Option (FromClause Expr SelectStatement)) (whereClause : Option Expr)
    (orderBy : List (OrderByItem Expr)) (locking : List LockingClause) : SelectStatement :=
  .mk distinctClause selectList fromClause whereClause [] none orderBy none none locking []

theorem clauseRows_none (hrows : satisfying context whereClause base = []) :
    hasAggregates selectList = true →
      clauseRows order context base (plainSelect distinctClause selectList fromClause whereClause
        orderBy locking) = [] := by
  intro hagg
  have hlength := length_applyOrderBy context [] orderBy
  rw [satisfying] at hrows
  rw [plainSelect, clauseRows, isGrouped, hagg, hrows]
  change (if orderBy.isEmpty then applyDistinct context [] distinctClause
    else applyOrderBy context (applyDistinct context [] distinctClause) orderBy) = []
  rw [applyDistinct_nil]
  exact List.length_eq_zero_iff.mp hlength

theorem clauseRows_group (hrows : satisfying context whereClause base ≠ [])
    (hagg : hasAggregates selectList = true) :
    clauseRows order context base (plainSelect distinctClause selectList fromClause whereClause
        orderBy locking) =
      [groupRow context.tupleDesc selectList
        (["__all__"], (satisfying context whereClause base).map Prod.snd)] := by
  rw [plainSelect, clauseRows, isGrouped, hagg]
  change (if orderBy.isEmpty then applyDistinct context (applyGroupBy context.tupleDesc order
      (satisfying context whereClause base) [] selectList) distinctClause
    else applyOrderBy context (applyDistinct context (applyGroupBy context.tupleDesc order
      (satisfying context whereClause base) [] selectList) distinctClause) orderBy) = _
  rw [applyGroupBy_nil context.tupleDesc order hrows hagg, applyDistinct_singleton]
  split
  · rfl
  · exact List.mergeSort_singleton _

theorem length_clauseRows_rows (hagg : hasAggregates selectList = false) :
    (clauseRows order context base (plainSelect distinctClause selectList fromClause whereClause
        orderBy locking)).length =
      (applyDistinct context (satisfying context whereClause base) distinctClause).length := by
  rw [plainSelect, clauseRows, isGrouped, hagg]
  exact length_applyOrderBy context _ orderBy

end Clauses

section Selects

variable [Scalars] (order : Iteration)
  (resolveTable : ObjectName → Option Expr → Except String Table)
  {context : ExecContext} {base : List Row} {distinctClause : DistinctClause Expr}
  {selectList : List (SelectItem Expr)} {fromClause : Option (FromClause Expr SelectStatement)}
  {whereClause : Option Expr} {orderBy : List (OrderByItem Expr)}
  {locking : List LockingClause}

/-- One row, in which every `COUNT(*)` is the number of the rows. -/
def OneRow (selectList : List (SelectItem Expr)) (rows : List Row) (result : SelectResult) :
    Prop :=
  ∃ row, result.rows = [row] ∧
    ∀ (j : Nat) item call, selectList[j]? = some item → itemCall item = some call →
      IsCountStar call → row[j]? = some (toString rows.length)

theorem oneRow_group (hrows : satisfying context whereClause base ≠ [])
    (hagg : hasAggregates selectList = true) :
    OneRow selectList (satisfying context whereClause base)
      (applyClauses order context base (plainSelect distinctClause selectList fromClause
        whereClause orderBy locking)) := by
  have hresult : (applyClauses order context base (plainSelect distinctClause selectList
      fromClause whereClause orderBy locking)).rows =
        applyWindowFunctions context.tupleDesc
          [(groupRow context.tupleDesc selectList
            (["__all__"], (satisfying context whereClause base).map Prod.snd)).2] selectList := by
    rw [applyClauses, clauseRows_group context order hrows hagg]
    rfl
  have hlength := length_applyWindowFunctions context.tupleDesc
    [(groupRow context.tupleDesc selectList
      (["__all__"], (satisfying context whereClause base).map Prod.snd)).2] selectList
  obtain ⟨row, hrow⟩ := List.length_eq_one_iff.mp hlength
  refine ⟨row, hresult.trans hrow, ?_⟩
  intro j item call hitem hitemCall hcall
  have hj : j < (groupRow context.tupleDesc selectList
      (["__all__"], (satisfying context whereClause base).map Prod.snd)).2.length := by
    rw [groupRow, List.length_map]
    exact (List.getElem?_eq_some_iff.mp hitem).1
  obtain ⟨row', hrow', hfield⟩ := getElem?_applyWindowFunctions context.tupleDesc hitem
    (isWindow_of_countStar hitemCall hcall) (List.getElem?_cons_zero) hj
  rw [hrow, List.getElem?_cons_zero] at hrow'
  cases hrow'
  rw [hfield, groupRow, List.getElem?_map, hitem, Option.map_some,
    countStar_text context.tupleDesc hitemCall hcall, List.length_map]

theorem length_applyClauses (select : SelectStatement) :
    (applyClauses order context base select).rows.length =
      (clauseRows order context base select).length := by
  rw [applyClauses, length_applyWindowFunctions, List.length_map]

theorem not_oneRow {rows : List Row} {result : SelectResult} (h : result.rows.length ≠ 1) :
    ¬OneRow selectList rows result := by
  rintro ⟨row, hrow, -⟩
  rw [hrow] at h
  exact h rfl

/-- The early exit for no rows comes before the group of all of them is made. -/
theorem aggregate_oneRow_iff
    (hfrom : readFrom order resolveTable selectList whereClause fromClause = .ok (context, base)) :
    (∃ result, executeSelect order resolveTable (plainSelect distinctClause selectList fromClause
        whereClause orderBy locking) = .ok result ∧
      OneRow selectList (satisfying context whereClause base) result) ↔
    hasAggregates selectList = true ∧ satisfying context whereClause base ≠ [] ∨
      hasAggregates selectList = false ∧
        (applyDistinct context (satisfying context whereClause base)
          distinctClause).length = 1 := by
  have hresult : executeSelect order resolveTable (plainSelect distinctClause selectList fromClause
      whereClause orderBy locking) = .ok (applyClauses order context base (plainSelect
        distinctClause selectList fromClause whereClause orderBy locking)) := by
    rw [plainSelect, executeSelect_eq, hfrom]
    rfl
  have hexists : (∃ result, executeSelect order resolveTable (plainSelect distinctClause selectList
        fromClause whereClause orderBy locking) = .ok result ∧
      OneRow selectList (satisfying context whereClause base) result) ↔
      OneRow selectList (satisfying context whereClause base) (applyClauses order context base
        (plainSelect distinctClause selectList fromClause whereClause orderBy locking)) := by
    rw [hresult]
    constructor
    · rintro ⟨result, hok, hone⟩
      cases hok
      exact hone
    · intro hone
      exact ⟨_, rfl, hone⟩
  rw [hexists]
  cases hagg : hasAggregates selectList with
  | true =>
      simp only [true_and, Bool.true_eq_false, false_and, or_false]
      constructor
      · intro hone hnone
        apply not_oneRow _ hone
        rw [length_applyClauses, clauseRows_none context order hnone hagg]
        exact Nat.zero_ne_one
      · intro hrows
        exact oneRow_group order hrows hagg
  | false =>
      simp only [true_and, Bool.false_eq_true, false_and, false_or]
      rw [← length_clauseRows_rows context order hagg, ← length_applyClauses]
      constructor
      · rintro ⟨row, hrow, -⟩
        rw [hrow]
        rfl
      · intro hlength
        obtain ⟨row, hrow⟩ := List.length_eq_one_iff.mp hlength
        refine ⟨row, hrow, ?_⟩
        intro j item call hitem hitemCall hcall
        rw [hasAggregates_of_countStar hitem hitemCall hcall] at hagg
        cases hagg

end Selects

section Rows

attribute [local instance] wholeNumbers

def fromTable : Option (FromClause Expr SelectStatement) :=
  some ⟨[⟨.table (.single "t"), none, .inner, .none⟩]⟩

def threeTable : Table := ⟨oneColumn, threeRows⟩

def emptyTable : Table := ⟨oneColumn, []⟩

/-- Every name is that of the table. -/
def onlyTable (table : Table) (_ : ObjectName) (_ : Option Expr) : Except String Table := .ok table

/-- `a = '1'`. -/
def isOne : Expr := .binaryOp (.identifier "a") .equals (.literal (.string "1"))

theorem aggregate_oneRow_iff_three :
    ∃ result, executeSelect inOrder (onlyTable threeTable)
        (plainSelect .all [.expr (.function countStar)] fromTable (some isOne) [] []) =
          .ok result ∧
      OneRow [.expr (.function countStar)]
        (satisfying threeTable.context (some isOne) threeRows) result := by
  have hfrom : readFrom inOrder (onlyTable threeTable) [.expr (.function countStar)]
      (some isOne) fromTable = .ok (threeTable.context, threeRows) := rfl
  have hagg : hasAggregates [SelectItem.expr (.function countStar)] = true := by decide +kernel
  have hrows : satisfying threeTable.context (some isOne) threeRows ≠ [] := by decide +kernel
  exact (aggregate_oneRow_iff inOrder _ hfrom).mpr (.inl ⟨hagg, hrows⟩)

/-- `SELECT COUNT(*)` of an empty table has no row. -/
theorem count_of_empty_table :
    executeSelect inOrder (onlyTable emptyTable)
        (plainSelect .all [.expr (.function countStar)] fromTable none [] []) =
          .ok ⟨["COUNT"], []⟩ ∧
      ¬OneRow [.expr (.function countStar)] [] ⟨["COUNT"], []⟩ := by
  constructor
  · rfl
  · exact not_oneRow Nat.zero_ne_one

end Rows

end PostgressRs.Executor.UngroupedAggregates
