import PostgressRs.Executor.JoinAgreement
import PostgressRs.Executor.UngroupedAggregates

/-!
How wide the rows of a select are, and how many columns it reports
(`src/executor/select/mod.rs`, `src/executor/select/context.rs`,
`src/executor/select/joins.rs`).
-/

namespace PostgressRs.Executor.ResultShape

open PostgressRs.Executor.Evaluation
open PostgressRs.Executor.GroupPartition (inOrder)
open PostgressRs.Executor.Grouping
open PostgressRs.Executor.HashJoin
open PostgressRs.Executor.HeapAccess (Row)
open PostgressRs.Executor.JoinAgreement (length_blanks)
open PostgressRs.Executor.Joins
open PostgressRs.Executor.MergeJoin
open PostgressRs.Executor.SelectExecutor
open PostgressRs.Executor.UngroupedAggregates (fromTable onlyTable plainSelect)
open PostgressRs.Executor.WindowFunctions
open PostgressRs.Executor.WindowPlacement
open PostgressRs.Lib.ThetaJoin
open PostgressRs.Server.Queries (SelectResult)
open PostgressRs.Sql.Ast
open PostgressRs.Types

section Joins

/-- All rows have as many fields. -/
def Uniform (width : Nat) (rows : List Row) : Prop := ∀ row ∈ rows, row.2.length = width

/-- The width of a left row that is padded because there is no right row at all. -/
def paddedWidth (leftWidth : Nat) : JoinConstraint Expr → Nat
  | .on onExpr => if isEquiJoin onExpr then leftWidth + leftWidth else leftWidth
  | .usingColumns _ | .none => leftWidth

/-- How wide joined rows are. -/
def joinWidth (constraint : JoinConstraint Expr) (left right : List Row)
    (leftWidth rightWidth : Nat) : Nat :=
  if left.isEmpty then rightWidth
  else if right.isEmpty then paddedWidth leftWidth constraint
  else leftWidth + rightWidth

variable {left right rows : List Row} {leftWidth rightWidth : Nat}

theorem isEmpty_of_mem {row : Row} (h : row ∈ rows) : rows.isEmpty = false :=
  List.isEmpty_eq_false_iff.mpr (List.ne_nil_of_mem h)

theorem Uniform.firstWidth (h : Uniform leftWidth left) :
    firstWidth left = if left.isEmpty then 0 else leftWidth := by
  cases left with
  | nil => rfl
  | cons row rows => exact h row List.mem_cons_self

theorem joinWidth_both (constraint : JoinConstraint Expr) (hleft : left.isEmpty = false)
    (hright : right.isEmpty = false) :
    joinWidth constraint left right leftWidth rightWidth = leftWidth + rightWidth := by
  rw [joinWidth, hleft, hright]
  rfl

/-- The widths of the rows that an equality joins or pads. -/
theorem length_of_mem_join [Scalars] {onExpr : Expr} (hequi : isEquiJoin onExpr = true)
    (hleft : Uniform leftWidth left) (hright : Uniform rightWidth right) {joinType : JoinType}
    {m : List String → List String → Prop} [∀ a b, Decidable (m a b)]
    {s : Multiset (List String)} (hs : ∀ row ∈ s, row ∈ fieldsOf left) {row : List String}
    (hrow : row ∈ (rowsOuter joinType (firstWidth left) (rightColCount left right)).join m s
      (fieldsOf right)) :
    row.length = joinWidth (.on onExpr) left right leftWidth rightWidth := by
  have hfields (rows : List Row) {fields : List String} (h : fields ∈ fieldsOf rows) :
      ∃ row ∈ rows, row.2 = fields := List.mem_map.mp h
  rcases Outer.mem_join _ hrow with ⟨a, ha, b, hb, -, rfl⟩ | ⟨f, hf, a, ha, rfl⟩ |
      ⟨f, hf, b, hb, rfl⟩
  · obtain ⟨l, hl, rfl⟩ := hfields left (hs a ha)
    obtain ⟨r, hr, rfl⟩ := hfields right hb
    rw [joinWidth_both _ (isEmpty_of_mem hl) (isEmpty_of_mem hr), ← hleft l hl, ← hright r hr]
    exact List.length_append
  · obtain ⟨l, hl, rfl⟩ := hfields left (hs a ha)
    have hpadded : f = (· ++ blanks (rightColCount left right)) := by
      change (if keepsLeft joinType then some _ else none) = some f at hf
      split at hf
      · exact (Option.some.inj hf).symm
      · cases hf
    rw [hpadded, List.length_append, length_blanks, rightColCount, hleft.firstWidth,
      hright.firstWidth, joinWidth, isEmpty_of_mem hl, hleft l hl]
    cases right.isEmpty with
    | true => simp only [Bool.false_eq_true, if_false, if_true, paddedWidth, hequi]
    | false => rfl
  · obtain ⟨r, hr, rfl⟩ := hfields right hb
    have hpadded : f = (blanks (firstWidth left) ++ ·) := by
      change (if keepsRight joinType then some _ else none) = some f at hf
      split at hf
      · exact (Option.some.inj hf).symm
      · cases hf
    rw [hpadded, List.length_append, length_blanks, hleft.firstWidth, joinWidth,
      isEmpty_of_mem hr, hright r hr]
    cases left.isEmpty with
    | true => exact Nat.zero_add _
    | false => rfl

variable [Scalars] (desc : Option TupleDesc)

theorem uniform_hashJoin {onExpr : Expr} (hequi : isEquiJoin onExpr = true)
    (hleft : Uniform leftWidth left) (hright : Uniform rightWidth right) (joinType : JoinType) :
    Uniform (joinWidth (.on onExpr) left right leftWidth rightWidth)
      (hashJoin desc left right onExpr joinType) := by
  intro row hrow
  have hfields : row.2 ∈ fieldsOf (hashJoin desc left right onExpr joinType) :=
    List.mem_map_of_mem hrow
  unfold isEquiJoin at hequi
  split at hequi
  · rw [fieldsOf_hashJoin] at hfields
    refine length_of_mem_join rfl hleft hright ?_ hfields
    intro row hrow
    rw [probedRows] at hrow
    split at hrow
    · exact (Multiset.mem_filter.mp hrow).1
    · exact hrow
  · cases hequi

theorem uniform_mergeJoin {onExpr : Expr} (hequi : isEquiJoin onExpr = true)
    (hleft : Uniform leftWidth left) (hright : Uniform rightWidth right) (joinType : JoinType) :
    Uniform (joinWidth (.on onExpr) left right leftWidth rightWidth)
      (mergeJoin desc left right onExpr joinType) := by
  intro row hrow
  have hfields : row.2 ∈ fieldsOf (mergeJoin desc left right onExpr joinType) :=
    List.mem_map_of_mem hrow
  unfold isEquiJoin at hequi
  split at hequi
  · rw [fieldsOf_mergeJoin] at hfields
    exact length_of_mem_join rfl hleft hright (fun _ h => h) hfields
  · cases hequi

omit [Scalars] in
theorem length_combined (constraint : JoinConstraint Expr) (hleft : Uniform leftWidth left)
    (hright : Uniform rightWidth right) {l r : Row} (hl : l ∈ left) (hr : r ∈ right) :
    (l.2 ++ r.2).length = joinWidth constraint left right leftWidth rightWidth := by
  rw [joinWidth_both constraint (isEmpty_of_mem hl) (isEmpty_of_mem hr), List.length_append,
    hleft l hl, hright r hr]

omit [Scalars] in
theorem uniform_crossRows (constraint : JoinConstraint Expr) (hleft : Uniform leftWidth left)
    (hright : Uniform rightWidth right) :
    Uniform (joinWidth constraint left right leftWidth rightWidth) (crossRows left right) := by
  intro row hrow
  obtain ⟨l, hl, hrow⟩ := List.mem_flatMap.mp hrow
  obtain ⟨r, hr, rfl⟩ := List.mem_map.mp hrow
  exact length_combined constraint hleft hright hl hr

omit [Scalars] in
theorem length_paddedRight {onExpr : Expr} (hequi : isEquiJoin onExpr = false)
    (hleft : Uniform leftWidth left) (hright : Uniform rightWidth right) {l : Row} (hl : l ∈ left) :
    (paddedRight (firstWidth right) l).2.length =
      joinWidth (.on onExpr) left right leftWidth rightWidth := by
  rw [paddedRight, List.length_append, length_blanks, hleft l hl, hright.firstWidth, joinWidth,
    isEmpty_of_mem hl]
  cases right.isEmpty with
  | true => simp only [Bool.false_eq_true, if_false, if_true, paddedWidth, hequi, add_zero]
  | false => rfl

omit [Scalars] in
theorem length_paddedLeft (constraint : JoinConstraint Expr) (hleft : Uniform leftWidth left)
    (hright : Uniform rightWidth right) {r : Row} (hr : r ∈ right) :
    (paddedLeft (firstWidth left) r).2.length =
      joinWidth constraint left right leftWidth rightWidth := by
  rw [paddedLeft, List.length_append, length_blanks, hright r hr, hleft.firstWidth, joinWidth,
    isEmpty_of_mem hr]
  cases left.isEmpty with
  | true => exact Nat.zero_add _
  | false => rfl

theorem uniform_leftRows {onExpr : Expr} (hequi : isEquiJoin onExpr = false)
    (hleft : Uniform leftWidth left) (hright : Uniform rightWidth right) :
    Uniform (joinWidth (.on onExpr) left right leftWidth rightWidth)
      (left.flatMap (leftRows desc onExpr (firstWidth right) right)) := by
  intro row hrow
  obtain ⟨l, hl, hrow⟩ := List.mem_flatMap.mp hrow
  rw [leftRows] at hrow
  split at hrow
  · rw [List.mem_singleton.mp hrow]
    exact length_paddedRight hequi hleft hright hl
  · obtain ⟨r, hr, rfl⟩ := List.mem_map.mp (List.mem_filter.mp hrow).1
    exact length_combined _ hleft hright hl hr

theorem uniform_rightRows (onExpr : Expr) (hleft : Uniform leftWidth left)
    (hright : Uniform rightWidth right) :
    Uniform (joinWidth (.on onExpr) left right leftWidth rightWidth)
      (right.flatMap (rightRows desc onExpr (firstWidth left) left)) := by
  intro row hrow
  obtain ⟨r, hr, hrow⟩ := List.mem_flatMap.mp hrow
  rw [rightRows] at hrow
  split at hrow
  · rw [List.mem_singleton.mp hrow]
    exact length_paddedLeft _ hleft hright hr
  · obtain ⟨l, hl, rfl⟩ := List.mem_map.mp (List.mem_filter.mp hrow).1
    exact length_combined _ hleft hright hl hr

theorem uniform_nestedLoopJoin {onExpr : Expr} (hequi : isEquiJoin onExpr = false)
    (hleft : Uniform leftWidth left) (hright : Uniform rightWidth right) (joinType : JoinType) :
    Uniform (joinWidth (.on onExpr) left right leftWidth rightWidth)
      (nestedLoopJoin desc left right onExpr joinType) := by
  cases joinType with
  | inner =>
      intro row hrow
      obtain ⟨l, hl, hrow⟩ := List.mem_flatMap.mp hrow
      obtain ⟨r, hr, rfl⟩ := List.mem_map.mp (List.mem_filter.mp hrow).1
      exact length_combined _ hleft hright hl hr
  | left => exact uniform_leftRows desc hequi hleft hright
  | right => exact uniform_rightRows desc onExpr hleft hright
  | full =>
      intro row hrow
      rcases List.mem_append.mp hrow with hrow | hrow
      · exact uniform_leftRows desc hequi hleft hright row hrow
      · obtain ⟨r, hr, rfl⟩ := List.mem_map.mp hrow
        exact length_paddedLeft _ hleft hright (List.mem_filter.mp hr).1
  | cross | lateral => exact uniform_crossRows _ hleft hright

omit [Scalars] in
theorem uniform_usingJoin (colNames cols : List String) (hleft : Uniform leftWidth left)
    (hright : Uniform rightWidth right) :
    Uniform (joinWidth (.usingColumns cols) left right leftWidth rightWidth)
      (usingJoin colNames left right cols) := by
  intro row hrow
  obtain ⟨l, hl, hrow⟩ := List.mem_flatMap.mp hrow
  obtain ⟨r, hr, rfl⟩ := List.mem_map.mp hrow
  exact length_combined _ hleft hright hl (List.mem_filter.mp hr).1

/-- Joined rows are as wide as the sides together, unless one side has no row. -/
theorem uniform_executeJoin (colNames : List String) (hleft : Uniform leftWidth left)
    (hright : Uniform rightWidth right) (joinType : JoinType)
    (constraint : JoinConstraint Expr) :
    Uniform (joinWidth constraint left right leftWidth rightWidth)
      (executeJoin desc colNames left right joinType constraint) := by
  cases constraint with
  | none => exact uniform_crossRows _ hleft hright
  | usingColumns cols => exact uniform_usingJoin colNames cols hleft hright
  | on onExpr =>
      cases hequi : isEquiJoin onExpr with
      | false =>
          have hjoin : executeJoin desc colNames left right joinType (.on onExpr) =
              nestedLoopJoin desc left right onExpr joinType := by
            rw [executeJoin, hequi]
            rfl
          rw [hjoin]
          exact uniform_nestedLoopJoin desc hequi hleft hright joinType
      | true =>
          rw [executeJoin, hequi, if_pos rfl, chooseJoinAlgorithm]
          split_ifs
          · exact uniform_hashJoin desc hequi hleft hright joinType
          · exact uniform_mergeJoin desc hequi hleft hright joinType

end Joins

section Clauses

variable [Scalars] (order : Iteration) (context : ExecContext)

/-- The number of reported columns: a star counts for the columns of the last table. -/
def columnCount (selectList : List (SelectItem Expr)) : Nat :=
  (selectList.map fun item =>
    match item with
    | .star | .tableStar _ => ((context.tupleDesc.map fun desc => desc.fields.length).getD 0)
    | .expr _ | .exprAs _ _ => 1).sum

omit [Scalars] in
theorem length_resolveColumns (selectList : List (SelectItem Expr)) :
    (resolveColumns context selectList).length = columnCount context selectList := by
  rw [resolveColumns, List.length_flatMap, columnCount]
  congr 1
  apply List.map_congr_left
  intro item _
  cases item with
  | expr expr => rfl
  | exprAs expr aliasName => rfl
  | star | tableStar table =>
      rw [itemColumns]
      cases context.tupleDesc with
      | none => rfl
      | some desc => exact List.length_map _

omit [Scalars] in
theorem firstOf_sublist {κ : Type} [DecidableEq κ] (key : Row → κ) (seen : Finset κ)
    (rows : List Row) : (firstOf key seen rows).Sublist rows := by
  induction rows generalizing seen with
  | nil => exact List.Sublist.refl _
  | cons row rows ih =>
      rw [firstOf]
      split
      · exact (ih seen).cons row
      · exact (ih _).cons_cons row

theorem applyDistinct_subset {rows : List Row} {clause : DistinctClause Expr} :
    applyDistinct context rows clause ⊆ rows := by
  cases clause with
  | all => exact List.Subset.refl _
  | distinct => exact (firstOf_sublist _ _ _).subset
  | distinctOn exprs => exact (firstOf_sublist _ _ _).subset

theorem applyWhere_subset {rows : List Row} {clause : Option Expr} :
    clause.elim rows (applyWhere context rows) ⊆ rows := by
  cases clause with
  | none => exact List.Subset.refl _
  | some clause => exact List.filter_sublist.subset

variable {distinctClause : DistinctClause Expr} {selectList : List (SelectItem Expr)}
  {fromClause : Option (FromClause Expr SelectStatement)} {whereClause : Option Expr}
  {groupBy : List Expr} {having : Option Expr} {orderBy : List (OrderByItem Expr)}
  {limit : Option (LimitClause Expr)} {offset : Option Expr} {locking : List LockingClause}
  {operations : List (SetOperation SelectStatement)} {base : List Row}

/-- The clauses behind the groups take rows away and order them. -/
theorem mem_of_mem_clauseRows {row : Row}
    (h : row ∈ clauseRows order context base (.mk distinctClause selectList fromClause whereClause
      groupBy having orderBy limit offset locking operations)) :
    row ∈ if isGrouped selectList groupBy then
        applyGroupBy context.tupleDesc order (whereClause.elim base (applyWhere context base))
          groupBy selectList
      else whereClause.elim base (applyWhere context base) := by
  have hlimit {rows : List Row} (h : row ∈ limit.elim rows (applyLimitOffset context rows)) :
      row ∈ rows := by
    cases limit with
    | none => exact h
    | some limit =>
        cases limit with
        | all => exact h
        | expr expr => exact List.mem_of_mem_take h
  have hoffset {rows : List Row} (h : row ∈ offset.elim rows (applyOffset context rows)) :
      row ∈ rows := by
    cases offset with
    | none => exact h
    | some offset => exact List.mem_of_mem_drop h
  have horder {rows : List Row}
      (h : row ∈ if orderBy.isEmpty then rows else applyOrderBy context rows orderBy) :
      row ∈ rows := by
    split at h
    · exact h
    · exact (List.mergeSort_perm _ _).mem_iff.mp h
  exact applyWhere_subset context (applyDistinct_subset context (horder (hoffset (hlimit h))))

theorem length_of_mem_applyGroupBy {rows : List Row} {row : Row}
    (hgrouped : isGrouped selectList groupBy = true)
    (h : row ∈ applyGroupBy context.tupleDesc order rows groupBy selectList) :
    row.2.length = selectList.length := by
  have hgroups {groups : List Group}
      (h : row ∈ groups.map (groupRow context.tupleDesc selectList)) :
      row.2.length = selectList.length := by
    obtain ⟨group, -, rfl⟩ := List.mem_map.mp h
    exact List.length_map _
  have hlisted : ¬(groupBy.isEmpty = true ∧ (!hasAggregates selectList) = true) := by
    rintro ⟨hempty, hnone⟩
    have hagg : hasAggregates selectList = false := by simpa using hnone
    rw [isGrouped, hempty, hagg] at hgrouped
    cases hgrouped
  rw [applyGroupBy] at h
  split at h
  · exact absurd h List.not_mem_nil
  · split at h
    · rw [hashAggregate] at h
      split at h
      · exact absurd h List.not_mem_nil
      · exact hgroups h
    · rw [sortAggregate, if_neg hlisted] at h
      split at h
      · exact absurd h List.not_mem_nil
      · exact hgroups h

/-- How wide the rows of a select are for the width of those of its from clause. -/
def rowWidth (selectList : List (SelectItem Expr)) (groupBy : List Expr) (width : Nat) : Nat :=
  if isGrouped selectList groupBy then selectList.length else windowWidth selectList width

def Fits (result : SelectResult) : Prop := ∀ row ∈ result.rows, row.length = result.columns.length

def groupByOf : SelectStatement → List Expr
  | .mk _ _ _ _ groupBy _ _ _ _ _ _ => groupBy

/-- Every row that the clauses leave is as wide as the list of columns. -/
def RowsShaped (base : List Row) (select : SelectStatement) : Prop :=
  ∀ row ∈ clauseRows order context base select,
    rowWidth (selectListOf select) (groupByOf select) row.2.length =
      columnCount context (selectListOf select)

variable {order context}

theorem windowWidth_of_mem_clauseRows {row : Row}
    (h : row ∈ clauseRows order context base (.mk distinctClause selectList fromClause whereClause
      groupBy having orderBy limit offset locking operations)) :
    windowWidth selectList row.2.length = rowWidth selectList groupBy row.2.length := by
  rw [rowWidth]
  split
  · rename_i hgrouped
    have hmem := mem_of_mem_clauseRows order context h
    rw [if_pos hgrouped] at hmem
    have hlength := length_of_mem_applyGroupBy order context hgrouped hmem
    rw [hlength]
    exact windowWidth_of_le le_rfl
  · rfl

theorem fits_applyClauses_iff :
    Fits (applyClauses order context base (.mk distinctClause selectList fromClause whereClause
        groupBy having orderBy limit offset locking operations)) ↔
      RowsShaped order context base (.mk distinctClause selectList fromClause whereClause groupBy
        having orderBy limit offset locking operations) := by
  have hlengths (rows : List (List String)) (n : Nat) :
      (∀ row ∈ rows, row.length = n) ↔ ∀ width ∈ rows.map List.length, width = n := by
    rw [List.forall_mem_map]
  rw [Fits, applyClauses, length_resolveColumns, hlengths, lengths_applyWindowFunctions,
    List.map_map, List.forall_mem_map, RowsShaped]
  apply forall₂_congr
  intro row hrow
  change windowWidth selectList row.2.length = _ ↔ _
  rw [windowWidth_of_mem_clauseRows hrow]
  rfl

/-- Ungrouped rows are rows of the from clause. -/
theorem rowsShaped_iff_of_uniform {width : Nat} (hbase : Uniform width base) :
    RowsShaped order context base (.mk distinctClause selectList fromClause whereClause groupBy
        having orderBy limit offset locking operations) ↔
      clauseRows order context base (.mk distinctClause selectList fromClause whereClause groupBy
          having orderBy limit offset locking operations) = [] ∨
        rowWidth selectList groupBy width = columnCount context selectList := by
  have hwidth : ∀ row ∈ clauseRows order context base (.mk distinctClause selectList fromClause
      whereClause groupBy having orderBy limit offset locking operations),
        rowWidth selectList groupBy row.2.length = rowWidth selectList groupBy width := by
    intro row hrow
    rw [rowWidth, rowWidth]
    split
    · rfl
    · rename_i hgrouped
      have hmem := mem_of_mem_clauseRows order context hrow
      rw [if_neg hgrouped] at hmem
      rw [hbase row (applyWhere_subset context hmem)]
  rw [RowsShaped]
  constructor
  · intro h
    rcases List.eq_nil_or_concat (clauseRows order context base (.mk distinctClause selectList
      fromClause whereClause groupBy having orderBy limit offset locking operations)) with
      hnil | ⟨rows, row, hrows⟩
    · exact .inl hnil
    · have hrow : row ∈ clauseRows order context base (.mk distinctClause selectList fromClause
          whereClause groupBy having orderBy limit offset locking operations) := by
        rw [hrows, List.concat_eq_append]
        exact List.mem_concat_self
      exact .inr ((hwidth row hrow).symm.trans (h row hrow))
  · rintro (hnil | heq) row hrow
    · rw [hnil] at hrow
      exact absurd hrow List.not_mem_nil
    · exact (hwidth row hrow).trans heq

end Clauses

section Operations

variable [Scalars] {order : Iteration}
  {resolveTable : ObjectName → Option Expr → Except String Table}

/-- `UNION` and `UNION ALL` lose no row. -/
def keepsRows : SetOperator → Bool
  | .union | .unionAll => true
  | .intersect | .intersectAll | .except | .exceptAll => false

omit [Scalars] in
theorem mem_union {left right : SelectResult} {operator : SetOperator}
    (hkeeps : keepsRows operator = true) {row : List String} :
    row ∈ (BagOperations.applySetOperation left right operator).rows ↔
      row ∈ left.rows ∨ row ∈ right.rows := by
  rw [BagOperations.applySetOperation_eq]
  cases operator with
  | union =>
      change row ∈ right.rows.foldl SetOperations.insertNew
        (left.rows.foldl SetOperations.insertNew []) ↔ _
      rw [SetOperations.mem_foldl_insertNew, SetOperations.mem_foldl_insertNew,
        or_iff_right List.not_mem_nil]
  | unionAll => exact List.mem_append
  | intersect | intersectAll | except | exceptAll => cases hkeeps

omit [Scalars] in
theorem mem_applySetOperation {left right : SelectResult} {operator : SetOperator}
    {row : List String} (h : row ∈ (BagOperations.applySetOperation left right operator).rows) :
    row ∈ left.rows ∨ row ∈ right.rows := by
  cases hkeeps : keepsRows operator with
  | true => exact (mem_union hkeeps).mp h
  | false =>
      rw [BagOperations.applySetOperation_eq] at h
      have hcount : 0 < (SetOperations.applySetOperation left right operator).rows.count row :=
        List.count_pos_iff.mpr h
      cases operator with
      | union | unionAll => cases hkeeps
      | intersect | except => exact .inl (List.mem_filter.mp h).1
      | intersectAll =>
          have hall := BagOperations.count_intersectAll row right.rows left.rows
          change 0 < (SetOperations.intersectAll right.rows left.rows).count row at hcount
          exact .inl (List.count_pos_iff.mp (by omega))
      | exceptAll =>
          have hall := BagOperations.count_exceptAll row right.rows left.rows
          change 0 < (SetOperations.exceptAll right.rows left.rows).count row at hcount
          exact .inl (List.count_pos_iff.mp (by omega))

/-- The operands have rows as wide as the columns of the select. -/
def OperandsFit (order : Iteration) (resolveTable : ObjectName → Option Expr → Except String Table)
    (count : Nat) (operations : List (SetOperation SelectStatement)) : Prop :=
  ∀ operation ∈ operations, ∀ right,
    executeSelect order resolveTable operation.select = .ok right →
      ∀ row ∈ right.rows, row.length = count

theorem operandsFit_cons {count : Nat} {operation : SetOperation SelectStatement}
    {operations : List (SetOperation SelectStatement)} {right : SelectResult}
    (hright : executeSelect order resolveTable operation.select = .ok right) :
    OperandsFit order resolveTable count (operation :: operations) ↔
      (∀ row ∈ right.rows, row.length = count) ∧
        OperandsFit order resolveTable count operations := by
  rw [OperandsFit, List.forall_mem_cons]
  apply and_congr_left'
  constructor
  · intro h
    exact h right hright
  · intro h right' hright'
    rw [hright] at hright'
    cases hright'
    exact h

variable {operations : List (SetOperation SelectStatement)} {left result : SelectResult}

theorem applySetOperations_cons {operation : SetOperation SelectStatement}
    (hrun : applySetOperations order resolveTable left (operation :: operations) = .ok result) :
    ∃ right, executeSelect order resolveTable operation.select = .ok right ∧
      applySetOperations order resolveTable
        (BagOperations.applySetOperation left right operation.operator) operations =
          .ok result := by
  change (executeSelect order resolveTable operation.select).bind (fun right =>
    applySetOperations order resolveTable
      (BagOperations.applySetOperation left right operation.operator) operations) = .ok result
    at hrun
  cases hright : executeSelect order resolveTable operation.select with
  | error message =>
      rw [hright] at hrun
      cases hrun
  | ok right =>
      rw [hright] at hrun
      exact ⟨right, rfl, hrun⟩

theorem fits_applySetOperations (hleft : Fits left)
    (hoperands : OperandsFit order resolveTable left.columns.length operations)
    (hrun : applySetOperations order resolveTable left operations = .ok result) : Fits result := by
  induction operations generalizing left with
  | nil =>
      cases hrun
      exact hleft
  | cons operation operations ih =>
      obtain ⟨right, hright, hrun⟩ := applySetOperations_cons hrun
      have hboth := (operandsFit_cons hright).mp hoperands
      have hfits :
          Fits (BagOperations.applySetOperation left right operation.operator) := by
        intro row hrow
        rcases mem_applySetOperation hrow with hmem | hmem
        · exact hleft row hmem
        · exact hboth.1 row hmem
      exact ih hfits hboth.2 hrun

theorem fits_unions_iff (hkeeps : ∀ operation ∈ operations, keepsRows operation.operator = true)
    (hrun : applySetOperations order resolveTable left operations = .ok result) :
    Fits result ↔
      Fits left ∧ OperandsFit order resolveTable left.columns.length operations := by
  induction operations generalizing left with
  | nil =>
      cases hrun
      exact (and_iff_left fun _ h => absurd h List.not_mem_nil).symm
  | cons operation operations ih =>
      obtain ⟨right, hright, hrun⟩ := applySetOperations_cons hrun
      obtain ⟨hkeep, hkeeps⟩ := List.forall_mem_cons.mp hkeeps
      have hunion : Fits (BagOperations.applySetOperation left right operation.operator) ↔
          Fits left ∧ ∀ row ∈ right.rows, row.length = left.columns.length := by
        constructor
        · intro h
          exact ⟨fun row hrow => h row ((mem_union hkeep).mpr (.inl hrow)),
            fun row hrow => h row ((mem_union hkeep).mpr (.inr hrow))⟩
        · rintro ⟨hleft, hright⟩ row hrow
          rcases (mem_union hkeep).mp hrow with hmem | hmem
          · exact hleft row hmem
          · exact hright row hmem
      rw [ih hkeeps hrun, operandsFit_cons hright, hunion, and_assoc]
      rfl

end Operations

section Sources

variable [Scalars] {order : Iteration}
  {resolveTable : ObjectName → Option Expr → Except String Table}

/-- A table behind the first one of a from clause, and how it is joined. -/
structure Source where
  table : ShapedTable
  joinType : JoinType
  constraint : JoinConstraint Expr

def Source.Reads (resolveTable : ObjectName → Option Expr → Except String Table)
    (join : Join Expr SelectStatement) (source : Source) : Prop :=
  ∃ name aliasName, join = ⟨.table name, aliasName, source.joinType, source.constraint⟩ ∧
    resolveTable name none = .ok source.table.toTable

def Source.joinRows (source : Source) (rows : List Row) : List Row :=
  executeJoin source.table.context.tupleDesc source.table.context.colNames rows source.table.rows
    source.joinType source.constraint

/-- How wide the rows of joined tables are. -/
def joinedWidth : List Row → Nat → List Source → Nat
  | _, width, [] => width
  | rows, width, source :: sources =>
      joinedWidth (source.joinRows rows)
        (joinWidth source.constraint rows source.table.rows width source.table.desc.fields.length)
        sources

/-- The table whose columns all clauses read. -/
def lastTable : Table → List Source → Table
  | table, [] => table
  | _, source :: sources => lastTable source.table.toTable sources

theorem executeJoins_reads {joins : List (Join Expr SelectStatement)} {sources : List Source}
    (hreads : List.Forall₂ (Source.Reads resolveTable) joins sources) (table : Table)
    {rows : List Row} {width : Nat} (hrows : Uniform width rows) :
    ∃ base, executeJoins order resolveTable table.context rows joins =
        .ok ((lastTable table sources).context, base) ∧
      Uniform (joinedWidth rows width sources) base := by
  induction hreads generalizing table rows width with
  | nil => exact ⟨rows, rfl, hrows⟩
  | @cons join source joins sources hread _ ih =>
      obtain ⟨name, aliasName, rfl, htable⟩ := hread
      have hright : Uniform source.table.desc.fields.length source.table.rows :=
        source.table.width
      obtain ⟨base, hbase, hwidth⟩ := ih source.table.toTable
        (uniform_executeJoin source.table.context.tupleDesc source.table.context.colNames hrows
          hright source.joinType source.constraint)
      refine ⟨base, ?_, hwidth⟩
      rw [executeJoins, resolveTableRef, htable]
      exact hbase

/-- The tables that a from clause without a subquery joins. -/
def ReadsTables (resolveTable : ObjectName → Option Expr → Except String Table)
    (whereClause : Option Expr) (fromClause : Option (FromClause Expr SelectStatement))
    (first : ShapedTable) (sources : List Source) : Prop :=
  ∃ name aliasName joinType constraint joins,
    fromClause = some ⟨⟨.table name, aliasName, joinType, constraint⟩ :: joins⟩ ∧
      resolveTable name whereClause = .ok first.toTable ∧
      List.Forall₂ (Source.Reads resolveTable) joins sources

theorem readFrom_tables {whereClause : Option Expr}
    {fromClause : Option (FromClause Expr SelectStatement)} {first : ShapedTable}
    {sources : List Source} (hreads : ReadsTables resolveTable whereClause fromClause first sources)
    (selectList : List (SelectItem Expr)) :
    ∃ base, readFrom order resolveTable selectList whereClause fromClause =
        .ok ((lastTable first.toTable sources).context, base) ∧
      Uniform (joinedWidth first.rows first.desc.fields.length sources) base := by
  obtain ⟨name, aliasName, joinType, constraint, joins, rfl, hfirst, hjoins⟩ := hreads
  obtain ⟨base, hbase, hwidth⟩ :=
    @executeJoins_reads _ order _ _ _ hjoins first.toTable first.rows _ first.width
  refine ⟨base, ?_, hwidth⟩
  rw [readFrom, executeFrom, resolveTableRef, hfirst]
  exact hbase

end Sources

section Shape

variable [Scalars] {order : Iteration}
  {resolveTable : ObjectName → Option Expr → Except String Table}

def fromOf : SelectStatement → Option (FromClause Expr SelectStatement)
  | .mk _ _ fromClause _ _ _ _ _ _ _ _ => fromClause

def whereOf : SelectStatement → Option Expr
  | .mk _ _ _ whereClause _ _ _ _ _ _ _ => whereClause

def operationsOf : SelectStatement → List (SetOperation SelectStatement)
  | .mk _ _ _ _ _ _ _ _ _ _ operations => operations

omit [Scalars] in
theorem columnCount_exprs {context : ExecContext} {selectList : List (SelectItem Expr)}
    (hexprs : ∀ item ∈ selectList, (itemExpr item).isSome) :
    columnCount context selectList = selectList.length := by
  have hone : ∀ item ∈ selectList, (itemColumns context item).length = 1 := by
    intro item hitem
    cases item with
    | expr expr | exprAs expr aliasName => rfl
    | star | tableStar table => cases hexprs _ hitem
  rw [← length_resolveColumns, resolveColumns, List.length_flatMap, List.map_congr_left hone,
    List.map_const', List.sum_replicate, smul_eq_mul, mul_one]

omit [Scalars] in
theorem length_filterMap_itemExpr {selectList : List (SelectItem Expr)}
    (hexprs : ∀ item ∈ selectList, (itemExpr item).isSome) :
    (selectList.filterMap itemExpr).length = selectList.length :=
  List.filterMap_length_eq_length.mpr hexprs

theorem mem_executeSelectWithoutFrom {selectList : List (SelectItem Expr)} {row : Row}
    (h : row ∈ executeSelectWithoutFrom selectList) :
    (∀ item ∈ selectList, (itemExpr item).isSome) ∧ row.2.length = selectList.length := by
  rw [executeSelectWithoutFrom] at h
  split at h
  · exact absurd h List.not_mem_nil
  · rename_i hstar
    have hexprs : ∀ item ∈ selectList, (itemExpr item).isSome := by
      intro item hitem
      apply Option.isSome_iff_ne_none.mpr
      intro hnone
      exact hstar (List.any_eq_true.mpr ⟨item, hitem, Option.isNone_iff_eq_none.mpr hnone⟩)
    refine ⟨hexprs, ?_⟩
    rw [List.mem_singleton.mp h, List.length_map]
    exact length_filterMap_itemExpr hexprs

theorem applyGroupBy_noRows (desc : Option TupleDesc) (groupBy : List Expr)
    (selectList : List (SelectItem Expr)) : applyGroupBy desc order [] groupBy selectList = [] := by
  have hvisit : order.visit (collectGroups desc groupBy []) = [] :=
    List.perm_nil.mp (order.perm _)
  have hsort : sortAggregate desc order [] groupBy selectList = [] := by
    rw [sortAggregate, hvisit]
    split_ifs <;> rfl
  rw [applyGroupBy, hsort]
  split_ifs
  · rfl
  · rfl
  · rename_i hmany
    exact absurd hmany (Nat.not_lt_zero 1000)
  · rfl

/-- Without a from clause the select list makes the row. -/
theorem rowsShaped_withoutFrom (select : SelectStatement) :
    RowsShaped order ExecContext.new (executeSelectWithoutFrom (selectListOf select)) select := by
  obtain ⟨distinctClause, selectList, fromClause, whereClause, groupBy, having, orderBy, limit,
    offset, locking, operations⟩ := select
  change ∀ row ∈ clauseRows order ExecContext.new (executeSelectWithoutFrom selectList)
      (.mk distinctClause selectList fromClause whereClause groupBy having orderBy limit offset
        locking operations),
    rowWidth selectList groupBy row.2.length = columnCount ExecContext.new selectList
  intro row hrow
  have hmem := mem_of_mem_clauseRows order ExecContext.new hrow
  split at hmem
  · rename_i hgrouped
    have hrows : whereClause.elim (executeSelectWithoutFrom selectList)
        (applyWhere ExecContext.new (executeSelectWithoutFrom selectList)) ≠ [] := by
      intro hnil
      rw [hnil, applyGroupBy_noRows] at hmem
      exact absurd hmem List.not_mem_nil
    obtain ⟨row', hrow'⟩ := List.exists_mem_of_ne_nil _ hrows
    obtain ⟨hexprs, -⟩ := mem_executeSelectWithoutFrom (applyWhere_subset _ hrow')
    rw [rowWidth, if_pos hgrouped, columnCount_exprs hexprs]
  · rename_i hgrouped
    obtain ⟨hexprs, hlength⟩ := mem_executeSelectWithoutFrom (applyWhere_subset _ hmem)
    rw [rowWidth, if_neg hgrouped, hlength, windowWidth_of_le le_rfl, columnCount_exprs hexprs]

end Shape

section Tables

attribute [local instance] wholeNumbers

def twoColumns : TupleDesc :=
  ⟨[{ name := "a", typeOid := ⟨25⟩, attnum := 0, typmod := -1 },
    { name := "b", typeOid := ⟨25⟩, attnum := 1, typmod := -1 }]⟩

def pairTable : ShapedTable where
  desc := twoColumns
  rows := [(⟨⟨0⟩, 0⟩, ["1", "2"])]
  width row hrow := by
    rw [List.mem_singleton.mp hrow]
    rfl

end Tables

end PostgressRs.Executor.ResultShape
