import Mathlib.Data.List.Basic
import PostgressRs.Executor.Evaluation

/-!
The order of rows and the functions over windows of them
(`src/executor/select/window.rs`, `src/executor/select/filter_limit.rs`).
-/

namespace PostgressRs.Executor.WindowFunctions

open PostgressRs.Executor.Evaluation
open PostgressRs.Server.Queries (parseUsize)
open PostgressRs.Sql.Ast
open PostgressRs.Types

section Orders

variable [Scalars] (desc : Option TupleDesc)

def valueOr (row : List String) (expr : Expr) : String := (evaluateExpr row desc expr).getD ""

def isNull (val : String) : Bool := val = "" || eqIgnoreAsciiCase val "NULL"

/-- A default direction is a descending one. -/
def directed (direction : SortDirection) (cmp : Ordering) : Ordering :=
  match direction with
  | .desc | .default => cmp.swap
  | .asc => cmp

/-- `sort_by` of rows: the comparison of the first item on which they differ. -/
def compareRows (a b : List String) : List (OrderByItem Expr) → Ordering
  | [] => .eq
  | item :: items =>
      let aVal := valueOr desc a item.expr
      let bVal := valueOr desc b item.expr
      let nullsFirst : Bool := item.nulls = .first
      match isNull aVal, isNull bVal with
      | true, true => compareRows a b items
      | true, false => if nullsFirst then .lt else .gt
      | false, true => if nullsFirst then .gt else .lt
      | false, false =>
          match directed item.direction (compare aVal bVal) with
          | .eq => compareRows a b items
          | cmp => cmp

def sortedRows {α : Type} (fields : α → List String) (orderBy : List (OrderByItem Expr))
    (rows : List α) : List α :=
  rows.mergeSort fun a b => compareRows desc (fields a) (fields b) orderBy != .gt

end Orders

section Values

variable [Scalars] (desc : Option TupleDesc)

/-- A literal argument, which is evaluated on a row without fields. -/
def argument (call : FunctionCall Expr) (i : Nat) : Option String :=
  match call.args[i]? with
  | some (.expr expr) => evaluateExpr [] desc expr
  | _ => none

def usizeArgument (call : FunctionCall Expr) (i default : Nat) : Nat :=
  ((argument desc call i).bind fun val => parseUsize val.toList).getD default

def numbered (count : Nat) : List String := (List.range count).map fun i => toString (i + 1)

def ntile (call : FunctionCall Expr) (count : Nat) : List String :=
  let n := usizeArgument desc call 0 1
  (List.range count).map fun i => toString (i * n % 2 ^ 64 / count + 1)

def rowsEqualOnOrderBy (orderBy : List (OrderByItem Expr)) (a b : List String) : Bool :=
  orderBy.all fun item => valueOr none a item.expr = valueOr none b item.expr

/-- The runs of rows that equal their first one. -/
def peers (orderBy : List (OrderByItem Expr)) : List (List String) → List Nat
  | [] => []
  | row :: rows =>
      ((rows.takeWhile (rowsEqualOnOrderBy orderBy row)).length + 1) ::
        peers orderBy (rows.dropWhile (rowsEqualOnOrderBy orderBy row))
termination_by rows => rows.length
decreasing_by
  have hle := (List.dropWhile_sublist (rowsEqualOnOrderBy orderBy row) (l := rows)).length_le
  rw [List.length_cons]
  omega

/-- `next` takes the rank of a run to that of the run behind it. -/
def ranks (next : Nat → Nat → Nat) : Nat → List Nat → List String
  | _, [] => []
  | rank, count :: counts =>
      List.replicate count (toString rank) ++ ranks next (next rank count) counts

def field (colIdx : Nat) (row : List String) : String := row[colIdx]?.getD ""

def lag (call : FunctionCall Expr) (colIdx : Nat) (rows : List (List String)) : List String :=
  let default := (argument desc call 2).getD ""
  let offset := usizeArgument desc call 1 1
  (List.range rows.length).map fun i =>
    if offset ≤ i then (rows[i - offset]?.map (field colIdx)).getD "" else default

def lead (call : FunctionCall Expr) (colIdx : Nat) (rows : List (List String)) : List String :=
  let default := (argument desc call 2).getD ""
  let offset := usizeArgument desc call 1 1
  (List.range rows.length).map fun i =>
    let j := (i + offset) % 2 ^ 64
    if j < rows.length then (rows[j]?.map (field colIdx)).getD "" else default

def nthValue (call : FunctionCall Expr) (colIdx : Nat) (rows : List (List String)) :
    List String :=
  let n := usizeArgument desc call 1 1
  let value :=
    if 0 < n ∧ n ≤ rows.length then (rows[n - 1]?.map (field colIdx)).getD "" else ""
  List.replicate rows.length value

/-- Without an order or a partition. -/
def simpleValues (name : String) (call : FunctionCall Expr) (count : Nat) :
    Option (List String) :=
  match name with
  | "ROW_NUMBER" | "RANK" | "DENSE_RANK" => some (numbered count)
  | "NTILE" => some (ntile desc call count)
  | _ => none

/-- The values of the rows in the order of the window. -/
def windowValues (name : String) (call : FunctionCall Expr) (colIdx : Nat)
    (orderBy : List (OrderByItem Expr)) (rows : List (List String)) : Option (List String) :=
  match name with
  | "ROW_NUMBER" => some (numbered rows.length)
  | "RANK" => some (ranks (· + ·) 1 (peers orderBy rows))
  | "DENSE_RANK" => some (ranks (fun rank _ => rank + 1) 1 (peers orderBy rows))
  | "NTILE" => some (ntile desc call rows.length)
  | "LAG" => some (lag desc call colIdx rows)
  | "LEAD" => some (lead desc call colIdx rows)
  | "FIRST_VALUE" =>
      some (List.replicate rows.length ((rows.head?.map (field colIdx)).getD ""))
  | "LAST_VALUE" =>
      some (List.replicate rows.length ((rows.getLast?.map (field colIdx)).getD ""))
  | "NTH_VALUE" => some (nthValue desc call colIdx rows)
  | _ => none

end Values

section Placement

variable [Scalars] (desc : Option TupleDesc)

/-- A value goes over the column of its index, or behind the row. -/
def place (colIdx : Nat) (row : List String) (val : String) : List String :=
  if colIdx < row.length then row.set colIdx val else row ++ [val]

/-- Each value back to the row it was computed for. -/
def placeAt (colIdx : Nat) (rows : List (List String)) :
    List (Nat × String) → List (List String)
  | [] => rows
  | (i, val) :: vals => placeAt colIdx (rows.modify i (place colIdx · val)) vals

def computeWindowFunction (rows : List (List String)) (colIdx : Nat) (name : String)
    (call : FunctionCall Expr) (spec : WindowSpec Expr) : List (List String) :=
  if spec.orderBy.isEmpty ∧ spec.partitionBy.isEmpty then
    match simpleValues desc name call rows.length with
    | some vals => placeAt colIdx rows ((List.range rows.length).zip vals)
    | none => rows
  else
    let indexedRows := sortedRows desc Prod.fst spec.orderBy rows.zipIdx
    match windowValues desc name call colIdx spec.orderBy (indexedRows.map Prod.fst) with
    | some vals => placeAt colIdx rows ((indexedRows.map Prod.snd).zip vals)
    | none => rows

/-- The call of an item and its window, if it has one. -/
def itemWindow : SelectItem Expr → Option (FunctionCall Expr × WindowSpec Expr)
  | .expr (.function call) | .exprAs (.function call) _ =>
      call.overClause.map fun spec => (call, spec)
  | _ => none

def applyWindow (rows : List (List String)) (item : SelectItem Expr × Nat) :
    List (List String) :=
  match itemWindow item.1 with
  | some (call, spec) => computeWindowFunction desc rows item.2 (functionName call) call spec
  | none => rows

def applyWindowFunctions (rows : List (List String)) (selectList : List (SelectItem Expr)) :
    List (List String) :=
  selectList.zipIdx.foldl (applyWindow desc) rows

end Placement

end PostgressRs.Executor.WindowFunctions
