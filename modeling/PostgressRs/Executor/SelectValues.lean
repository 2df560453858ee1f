import PostgressRs.Executor.IndexScan

/-!
A select over tables as values, and that one whose tables are read by calls comes to it.
-/

namespace PostgressRs.Executor.SelectValues

open PostgressRs.Executor.Evaluation (Scalars)
open PostgressRs.Executor.Grouping (Iteration)
open PostgressRs.Executor.HeapAccess (Row)
open PostgressRs.Executor.IndexScan
open PostgressRs.Executor.SelectExecutor
open PostgressRs.Lib.Procedure
open PostgressRs.Server.Queries (SelectResult)
open PostgressRs.Sql.Ast

variable [Scalars] {order : Iteration} {σ : Type} {I : σ → Prop}
  {resolve : ObjectName → Option Expr → Proc σ Table} {tables : ObjectName → Option Expr → Id Table}

/-- The result of a select that finds its tables as they are. -/
def selectOver (order : Iteration) (tables : ObjectName → Option Expr → Id Table)
    (select : SelectStatement) : SelectResult :=
  executeSelect order tables select

omit [Scalars] in
/-- The calls read the tables of these places, whenever they are made. -/
def ReadsGive (I : σ → Prop) (resolve : ObjectName → Option Expr → Proc σ Table)
    (tables : ObjectName → Option Expr → Id Table) (reads : List (ObjectName × Option Expr)) :
    Prop :=
  ∀ read ∈ reads, Gives I (resolve read.1 read.2) (tables read.1 read.2)

omit [Scalars] in
theorem readsGive_append {reads reads' : List (ObjectName × Option Expr)} :
    ReadsGive I resolve tables (reads ++ reads') ↔
      ReadsGive I resolve tables reads ∧ ReadsGive I resolve tables reads' :=
  List.forall_mem_append

mutual

theorem gives_executeSelect (select : SelectStatement)
    (h : ReadsGive I resolve tables (readsOf select)) :
    Gives I (executeSelect order resolve select) (selectOver order tables select) := by
  cases select with
  | mk distinctClause selectList fromClause whereClause groupBy having orderBy limit offset locking
      operations =>
      unfold readsOf at h
      rw [readsGive_append] at h
      rw [selectOver, executeSelect_eq, executeSelect_eq]
      have hfrom : Gives I (readFrom order resolve selectList whereClause fromClause)
          (readFrom order tables selectList whereClause fromClause) := by
        cases fromClause with
        | none => exact gives_pure _
        | some clause =>
            obtain ⟨joins⟩ := clause
            exact gives_executeFrom whereClause joins h.1
      exact gives_bind hfrom (gives_applySetOperations _ operations h.2)

theorem gives_executeFrom (whereClause : Option Expr) (joins : List (Join Expr SelectStatement))
    (h : ReadsGive I resolve tables (fromReads whereClause joins)) :
    Gives I (executeFrom order resolve whereClause joins)
      (executeFrom order tables whereClause joins : Id (ExecContext × List Row)) := by
  cases joins with
  | nil =>
      rw [executeFrom, executeFrom]
      exact gives_pure _
  | cons join joins =>
      obtain ⟨table, aliasName, joinType, constraint⟩ := join
      rw [fromReads, readsGive_append] at h
      rw [executeFrom, executeFrom]
      exact gives_bind (gives_resolveTableRef _ whereClause table h.1)
        (gives_executeJoins _ _ joins h.2)

theorem gives_executeJoins (context : ExecContext) (rows : List Row)
    (joins : List (Join Expr SelectStatement))
    (h : ReadsGive I resolve tables (joinReads joins)) :
    Gives I (executeJoins order resolve context rows joins)
      (executeJoins order tables context rows joins : Id (ExecContext × List Row)) := by
  cases joins with
  | nil =>
      rw [executeJoins, executeJoins]
      exact gives_pure _
  | cons join joins =>
      obtain ⟨table, aliasName, joinType, constraint⟩ := join
      rw [joinReads, readsGive_append] at h
      rw [executeJoins, executeJoins]
      exact gives_bind (gives_resolveTableRef _ none table h.1) (gives_executeJoins _ _ joins h.2)

theorem gives_resolveTableRef (context : ExecContext) (whereClause : Option Expr)
    (table : TableRef SelectStatement)
    (h : ReadsGive I resolve tables (tableReads whereClause table)) :
    Gives I (resolveTableRef order resolve context whereClause table)
      (resolveTableRef order tables context whereClause table : Id (ExecContext × List Row)) := by
  cases table with
  | table name =>
      rw [tableReads] at h
      rw [resolveTableRef, resolveTableRef]
      exact gives_bind (h _ (List.mem_singleton_self _)) (gives_pure _)
  | subquery query =>
      rw [tableReads] at h
      rw [resolveTableRef, resolveTableRef]
      exact gives_bind (gives_executeSelect query h) (gives_pure _)

theorem gives_applySetOperations (result : SelectResult)
    (operations : List (SetOperation SelectStatement))
    (h : ReadsGive I resolve tables (operationReads operations)) :
    Gives I (applySetOperations order resolve result operations)
      (applySetOperations order tables result operations : Id SelectResult) := by
  cases operations with
  | nil =>
      rw [applySetOperations, applySetOperations]
      exact gives_pure _
  | cons operation operations =>
      obtain ⟨operator, select⟩ := operation
      rw [operationReads, readsGive_append] at h
      rw [applySetOperations, applySetOperations]
      exact gives_bind (gives_executeSelect select h.1) (gives_applySetOperations _ operations h.2)

end

end PostgressRs.Executor.SelectValues
