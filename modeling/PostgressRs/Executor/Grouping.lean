import PostgressRs.Executor.Evaluation
import PostgressRs.Executor.HeapAccess

/-!
Groups and aggregates (`src/executor/select/group_by.rs`).
-/

namespace PostgressRs.Executor.Grouping

open PostgressRs.Executor.Evaluation
open PostgressRs.Executor.HeapAccess (Row)
open PostgressRs.Security.RowSecurity (parseBool boolText)
open PostgressRs.Sql.Ast
open PostgressRs.Types

section Detection

variable [Scalars]

def isAggregate (name : String) : Bool := name ∈ ["COUNT", "SUM", "AVG", "MIN", "MAX"]

mutual

def exprHasAgg : Expr → Bool
  | .function call => isAggregate (functionName call)
  | .binaryOp left _ right => exprHasAgg left || exprHasAgg right
  | .unaryOp _ expr => exprHasAgg expr
  | .between expr _ low high => exprHasAgg expr || exprHasAgg low || exprHasAgg high
  | .inList expr _ list => exprHasAgg expr || anyHasAgg list
  | _ => false

def anyHasAgg : List Expr → Bool
  | [] => false
  | expr :: list => exprHasAgg expr || anyHasAgg list

end

def itemHasAgg : SelectItem Expr → Bool
  | .expr expr => exprHasAgg expr
  | .exprAs expr _ => exprHasAgg expr
  | .star => false
  | .tableStar _ => false

def hasAggregates (selectList : List (SelectItem Expr)) : Bool := selectList.any itemHasAgg

end Detection

section Groups

variable [Scalars] (desc : Option TupleDesc)

def numberOr (default : F64) (s : String) : F64 := (parseF64 s).getD default

def truthOf (s : String) : Bool := (parseBool s).getD false

def numberText (op : F64 → F64 → F64) (left right : String) : String :=
  showF64 (op (numberOr Scalars.zero left) (numberOr Scalars.zero right))

def quotientText (op : F64 → F64 → F64) (left right : String) : String :=
  let r := numberOr Scalars.one right
  if Scalars.isZero r then "NULL" else showF64 (op (numberOr Scalars.zero left) r)

def evalBinaryOp (left : String) (op : BinaryOperator) (right : String) : String :=
  match op with
  | .plus => numberText Scalars.add left right
  | .minus => numberText Scalars.sub left right
  | .multiply => numberText Scalars.mul left right
  | .divide => quotientText Scalars.div left right
  | .modulo => quotientText Scalars.rem left right
  | .equals => boolText (decide (left = right))
  | .notEquals => boolText (decide (left ≠ right))
  | .lessThan => boolText (decide (left < right))
  | .lessOrEqual => boolText (decide (left ≤ right))
  | .greaterThan => boolText (decide (right < left))
  | .greaterOrEqual => boolText (decide (right ≤ left))
  | .and => boolText (truthOf left && truthOf right)
  | .or => boolText (truthOf left || truthOf right)
  | .like => boolText (contains left (withoutPercents right))
  | .iLike =>
      boolText (contains (toLowercase left)
        (toLowercase (String.ofList (withoutPercents right))).toList)
  | .bitwiseAnd | .bitwiseOr | .bitwiseXor | .bitwiseShiftLeft | .bitwiseShiftRight => "NULL"

/-- The first argument, unless it is `*`. -/
def firstArg (call : FunctionCall Expr) : Option Expr :=
  match call.args.head? with
  | some (.expr inner) => some inner
  | _ => none

/-- The values of an argument on the rows that have one. -/
def argValues (inner : Expr) (groupRows : List (List String)) : List String :=
  groupRows.filterMap fun row => evaluateExpr row desc inner

def argNumbers (inner : Expr) (groupRows : List (List String)) : List F64 :=
  (argValues desc inner groupRows).filterMap parseF64

def sorted (vals : List String) : List String := vals.mergeSort fun a b => decide (a ≤ b)

def countText (call : FunctionCall Expr) (groupRows : List (List String)) : String :=
  match firstArg call with
  | some inner => toString (argValues desc inner groupRows).length
  | none => toString groupRows.length

def sumText (call : FunctionCall Expr) (groupRows : List (List String)) : String :=
  match firstArg call with
  | some inner => showF64 (Scalars.sum (argNumbers desc inner groupRows))
  | none => "0"

def avgText (call : FunctionCall Expr) (groupRows : List (List String)) : String :=
  match firstArg call with
  | some inner =>
      let vals := argNumbers desc inner groupRows
      if vals.isEmpty then "0"
      else showF64 (Scalars.div (Scalars.sum vals) (Scalars.ofUsize vals.length))
  | none => "0"

def minText (call : FunctionCall Expr) (groupRows : List (List String)) : String :=
  match firstArg call with
  | some inner => (sorted (argValues desc inner groupRows)).head?.getD ""
  | none => ""

def maxText (call : FunctionCall Expr) (groupRows : List (List String)) : String :=
  match firstArg call with
  | some inner => (sorted (argValues desc inner groupRows)).getLast?.getD ""
  | none => ""

/-- The value on the first row of the group. -/
def onFirst (expr : Expr) (groupRows : List (List String)) : String :=
  (groupRows.head?.bind fun first => evaluateExpr first desc expr).getD ""

def callText (call : FunctionCall Expr) (groupRows : List (List String)) : String :=
  match functionName call with
  | "COUNT" => countText desc call groupRows
  | "SUM" => sumText desc call groupRows
  | "AVG" => avgText desc call groupRows
  | "MIN" => minText desc call groupRows
  | "MAX" => maxText desc call groupRows
  | _ => onFirst desc (.function call) groupRows

def evaluateExprWithGroup (groupRows : List (List String)) : Expr → String
  | .function call => callText desc call groupRows
  | .identifier col =>
      (groupRows.head?.bind fun first => columnValue first desc col).getD ""
  | .literal lit => literalText lit
  | .binaryOp left op right =>
      evalBinaryOp (evaluateExprWithGroup groupRows left) op
        (evaluateExprWithGroup groupRows right)
  | expr => onFirst desc expr groupRows

def evaluateSelectItemWithGroup (item : SelectItem Expr) (groupRows : List (List String)) :
    String :=
  match item with
  | .expr expr => evaluateExprWithGroup desc groupRows expr
  | .exprAs expr _ => evaluateExprWithGroup desc groupRows expr
  | .star | .tableStar _ => (groupRows.head?.map fun first => ", ".intercalate first).getD ""

/-- The entries of `groups`. -/
abbrev Group : Type := List String × List (List String)

/-- `groups.entry(key).or_default().push(row)`. -/
def pushRow (key row : List String) : List Group → List Group
  | [] => [(key, [row])]
  | (key', rows) :: groups =>
      if key' = key then (key', rows ++ [row]) :: groups
      else (key', rows) :: pushRow key row groups

def groupKey (groupBy : List Expr) (row : List String) : List String :=
  if groupBy.isEmpty then ["__all__"]
  else groupBy.map fun expr => (evaluateExpr row desc expr).getD ""

def collectGroups (groupBy : List Expr) (rows : List Row) : List Group :=
  rows.foldl (fun groups row => pushRow (groupKey desc groupBy row.2) row.2 groups) []

/-- An order in which the entries of a `HashMap` are visited. -/
structure Iteration where
  visit : List Group → List Group
  perm (groups : List Group) : (visit groups).Perm groups

def groupRow (selectList : List (SelectItem Expr)) (group : Group) : Row :=
  (⟨⟨0⟩, 0⟩, selectList.map fun item => evaluateSelectItemWithGroup desc item group.2)

def hashAggregate (order : Iteration) (rows : List Row) (groupBy : List Expr)
    (selectList : List (SelectItem Expr)) : List Row :=
  if groupBy.isEmpty ∧ rows.isEmpty then []
  else (order.visit (collectGroups desc groupBy rows)).map (groupRow desc selectList)

def sortAggregate (order : Iteration) (rows : List Row) (groupBy : List Expr)
    (selectList : List (SelectItem Expr)) : List Row :=
  if groupBy.isEmpty ∧ rows.isEmpty then []
  else if groupBy.isEmpty ∧ !hasAggregates selectList then rows
  else (order.visit (collectGroups desc groupBy rows)).map (groupRow desc selectList)

def applyGroupBy (order : Iteration) (rows : List Row) (groupBy : List Expr)
    (selectList : List (SelectItem Expr)) : List Row :=
  if groupBy.isEmpty ∧ rows.isEmpty then []
  else if groupBy.isEmpty ∧ !hasAggregates selectList then rows
  else if 1000 < rows.length then hashAggregate desc order rows groupBy selectList
  else sortAggregate desc order rows groupBy selectList

end Groups

end PostgressRs.Executor.Grouping
