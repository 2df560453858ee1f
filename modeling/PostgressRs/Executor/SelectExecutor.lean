import PostgressRs.Executor.BagOperations
import PostgressRs.Executor.Grouping
import PostgressRs.Executor.Joins
import PostgressRs.Executor.WindowFunctions

/-!
The execution of selects (`src/executor/select/mod.rs`, `src/executor/select/context.rs`,
`src/executor/select/filter_limit.rs`).
-/

namespace PostgressRs.Executor.SelectExecutor

open PostgressRs.Executor.BagOperations (applySetOperation)
open PostgressRs.Executor.Evaluation
open PostgressRs.Executor.Grouping
open PostgressRs.Executor.HeapAccess (Row)
open PostgressRs.Executor.Joins
open PostgressRs.Executor.WindowFunctions
open PostgressRs.Server.Queries (SelectResult parseUsize)
open PostgressRs.Sql.Ast
open PostgressRs.Types

section Context

/-- The columns of a relation and the rows that were read of it. -/
structure Table where
  desc : TupleDesc
  rows : List Row

/-- A table whose rows have a field for every column. -/
structure ShapedTable extends Table where
  width : ∀ row ∈ rows, row.2.length = desc.fields.length

/-- What is known of the rows: `col_names` and `tuple_desc`. -/
structure ExecContext where
  colNames : List String
  tupleDesc : Option TupleDesc

def ExecContext.new : ExecContext := ⟨[], none⟩

def Table.context (table : Table) : ExecContext :=
  ⟨table.desc.fields.map Attribute.name, some table.desc⟩

/-- The rows of a subquery are numbered by `i as u32`. -/
def numberedRows (rows : List (List String)) : List Row :=
  rows.zipIdx.map fun (row, i) => (⟨⟨UInt32.ofNat i⟩, 0⟩, row)

end Context

section Clauses

variable [Scalars] (order : Iteration) (context : ExecContext)

def itemExpr : SelectItem Expr → Option Expr
  | .expr expr | .exprAs expr _ => some expr
  | .star | .tableStar _ => none

def executeSelectWithoutFrom (selectList : List (SelectItem Expr)) : List Row :=
  if selectList.any fun item => (itemExpr item).isNone then []
  else
    [(⟨⟨0⟩, 0⟩, (selectList.filterMap itemExpr).map fun expr =>
      (evaluateExpr [] none expr).getD "")]

/-- Also `apply_having`. -/
def applyWhere (rows : List Row) (whereClause : Expr) : List Row :=
  rows.filter fun row => evaluateWhere row.2 context.tupleDesc whereClause

/-- The first row of every key. -/
def firstOf {κ : Type} [DecidableEq κ] (key : Row → κ) : Finset κ → List Row → List Row
  | _, [] => []
  | seen, row :: rows =>
      if key row ∈ seen then firstOf key seen rows
      else row :: firstOf key (insert (key row) seen) rows

def applyDistinct (rows : List Row) : DistinctClause Expr → List Row
  | .all => rows
  | .distinct => firstOf Prod.snd ∅ rows
  | .distinctOn exprs =>
      firstOf (fun row => exprs.map fun expr =>
        (evaluateExpr row.2 context.tupleDesc expr).getD "") ∅ rows

def applyOrderBy (rows : List Row) (orderBy : List (OrderByItem Expr)) : List Row :=
  sortedRows context.tupleDesc Prod.snd orderBy rows

/-- The number of rows to skip or to take. -/
def rowCount (expr : Expr) : Nat :=
  ((evaluateExpr [] context.tupleDesc expr).bind fun val => parseUsize val.toList).getD 0

def applyOffset (rows : List Row) (offset : Expr) : List Row := rows.drop (rowCount context offset)

def applyLimitOffset (rows : List Row) : LimitClause Expr → List Row
  | .all => rows
  | .expr expr => rows.take (rowCount context expr)

def columnName : Expr → String
  | .identifier col => col
  | .function call => call.name.parts.getLast?.getD ""
  | .literal (.string s) => "'" ++ s ++ "'"
  | .literal lit => literalText lit
  | _ => "expr"

def itemColumns : SelectItem Expr → List String
  | .star | .tableStar _ =>
      (context.tupleDesc.map fun desc => desc.fields.map Attribute.name).getD []
  | .exprAs _ aliasName => [aliasName]
  | .expr expr => [columnName expr]

def resolveColumns (selectList : List (SelectItem Expr)) : List String :=
  selectList.flatMap (itemColumns context)

/-- Whether the rows of a select are groups. -/
def isGrouped (selectList : List (SelectItem Expr)) (groupBy : List Expr) : Bool :=
  !groupBy.isEmpty || hasAggregates selectList

/-- The rows of the clauses behind the from clause, but for the window functions. -/
def clauseRows (base : List Row) : SelectStatement → List Row
  | .mk distinctClause selectList _ whereClause groupBy having orderBy limit offset _ _ =>
      let filtered := whereClause.elim base (applyWhere context base)
      let grouped :=
        if isGrouped selectList groupBy then
          applyGroupBy context.tupleDesc order filtered groupBy selectList
        else filtered
      let havingFiltered := having.elim grouped (applyWhere context grouped)
      let distinctRows := applyDistinct context havingFiltered distinctClause
      let ordered :=
        if orderBy.isEmpty then distinctRows else applyOrderBy context distinctRows orderBy
      let offsetRows := offset.elim ordered (applyOffset context ordered)
      limit.elim offsetRows (applyLimitOffset context offsetRows)

def selectListOf : SelectStatement → List (SelectItem Expr)
  | .mk _ selectList _ _ _ _ _ _ _ _ _ => selectList

def applyClauses (base : List Row) (select : SelectStatement) : SelectResult where
  columns := resolveColumns context (selectListOf select)
  rows :=
    applyWindowFunctions context.tupleDesc ((clauseRows order context base select).map Prod.snd)
      (selectListOf select)

end Clauses

section Selects

variable [Scalars] (order : Iteration) {m : Type → Type} [Monad m]
  (resolveTable : ObjectName → Option Expr → m Table)

mutual

/-- `execute_select_with_snapshot`. -/
def executeSelect : SelectStatement → m SelectResult
  | .mk distinctClause selectList fromClause whereClause groupBy having orderBy limit offset
      locking operations => do
      let (context, base) ←
        match fromClause with
        | some ⟨joins⟩ => executeFrom whereClause joins
        | none => pure (ExecContext.new, executeSelectWithoutFrom selectList)
      applySetOperations
        (applyClauses order context base (.mk distinctClause selectList fromClause whereClause
          groupBy having orderBy limit offset locking operations))
        operations

def executeFrom (whereClause : Option Expr) :
    List (Join Expr SelectStatement) → m (ExecContext × List Row)
  | [] => pure (ExecContext.new, [])
  | ⟨table, _, _, _⟩ :: joins => do
      let (context, rows) ← resolveTableRef ExecContext.new whereClause table
      executeJoins context rows joins

/-- Each join reads the columns of the table that was resolved last. -/
def executeJoins (context : ExecContext) (rows : List Row) :
    List (Join Expr SelectStatement) → m (ExecContext × List Row)
  | [] => pure (context, rows)
  | ⟨table, _, joinType, constraint⟩ :: joins => do
      let (context, right) ← resolveTableRef context none table
      executeJoins context
        (executeJoin context.tupleDesc context.colNames rows right joinType constraint) joins

def resolveTableRef (context : ExecContext) (whereClause : Option Expr) :
    TableRef SelectStatement → m (ExecContext × List Row)
  | .table name => do
      let table ← resolveTable name whereClause
      pure (table.context, table.rows)
  | .subquery query => do
      let result ← executeSelect query
      pure ({ context with colNames := result.columns }, numberedRows result.rows)

def applySetOperations (result : SelectResult) :
    List (SetOperation SelectStatement) → m SelectResult
  | [] => pure result
  | ⟨operator, select⟩ :: operations => do
      let right ← executeSelect select
      applySetOperations (applySetOperation result right operator) operations

end

/-- The rows of the from clause and what is known of them. -/
def readFrom (selectList : List (SelectItem Expr)) (whereClause : Option Expr) :
    Option (FromClause Expr SelectStatement) → m (ExecContext × List Row)
  | some ⟨joins⟩ => executeFrom order resolveTable whereClause joins
  | none => pure (ExecContext.new, executeSelectWithoutFrom selectList)

variable {distinctClause : DistinctClause Expr} {selectList : List (SelectItem Expr)}
  {fromClause : Option (FromClause Expr SelectStatement)} {whereClause : Option Expr}
  {groupBy : List Expr} {having : Option Expr} {orderBy : List (OrderByItem Expr)}
  {limit : Option (LimitClause Expr)} {offset : Option Expr} {locking : List LockingClause}
  {operations : List (SetOperation SelectStatement)}

theorem executeSelect_eq :
    executeSelect order resolveTable (.mk distinctClause selectList fromClause whereClause groupBy
        having orderBy limit offset locking operations) = (do
      let (context, base) ← readFrom order resolveTable selectList whereClause fromClause
      applySetOperations order resolveTable
        (applyClauses order context base (.mk distinctClause selectList fromClause whereClause
          groupBy having orderBy limit offset locking operations))
        operations) := by
  cases fromClause with
  | none => rfl
  | some clause => rfl

end Selects

end PostgressRs.Executor.SelectExecutor
