import PostgressRs.Security.RowSecurity
import PostgressRs.Server.Queries
import PostgressRs.Sql.TokenStream

/-!
The evaluation of expressions on a row (`src/server/eval.rs`).
-/

namespace PostgressRs.Executor.Evaluation

open PostgressRs.Lib.Utf8
open PostgressRs.Security.RowSecurity (parseBool boolText)
open PostgressRs.Server.Queries (parseUsize trim)
open PostgressRs.Sql.Ast
open PostgressRs.Sql.TokenStream (parseI64)
open PostgressRs.Types

section Scalars

/-- What the evaluators use of `f64` and of the Unicode tables of the standard library. -/
class Scalars where
  F64 : Type
  parseF64 : String → Option F64
  showF64 : F64 → String
  zero : F64
  one : F64
  add : F64 → F64 → F64
  sub : F64 → F64 → F64
  mul : F64 → F64 → F64
  div : F64 → F64 → F64
  rem : F64 → F64 → F64
  neg : F64 → F64
  isZero : F64 → Bool
  le : F64 → F64 → Bool
  sum : List F64 → F64
  ofUsize : Nat → F64
  toUppercase : String → String
  toLowercase : String → String

export Scalars (F64 parseF64 showF64 toUppercase toLowercase)

/-- Whole numbers and ASCII texts only. -/
@[reducible] def wholeNumbers : Scalars where
  F64 := Int
  parseF64 := parseI64
  showF64 n := toString n
  zero := 0
  one := 1
  add := (· + ·)
  sub := (· - ·)
  mul := (· * ·)
  div := Int.tdiv
  rem := Int.tmod
  neg := Neg.neg
  isZero n := n = 0
  le a b := a ≤ b
  sum := List.sum
  ofUsize n := n
  toUppercase s := String.ofList (s.toList.map Char.toUpper)
  toLowercase s := String.ofList (s.toList.map Char.toLower)

def eqIgnoreAsciiCase (a b : String) : Bool :=
  a.toList.map Char.toLower = b.toList.map Char.toLower

/-- `s.replace('%', "")`. -/
def withoutPercents (s : String) : List Char := s.toList.filter (· ≠ '%')

def contains (s : String) (pattern : List Char) : Bool := pattern <:+: s.toList

end Scalars

section Operators

variable [Scalars]

/-- A result of two numbers. -/
def arithmetic (op : F64 → F64 → F64) (l r : String) : Option String := do
  let l ← parseF64 l
  let r ← parseF64 r
  pure (showF64 (op l r))

/-- A division by zero has no result. -/
def division (op : F64 → F64 → F64) (l r : String) : Option String := do
  let l ← parseF64 l
  let r ← parseF64 r
  if Scalars.isZero r then none else pure (showF64 (op l r))

def connective (op : Bool → Bool → Bool) (l r : String) : Option String := do
  let l ← parseBool l
  let r ← parseBool r
  pure (boolText (op l r))

def binaryResult (op : BinaryOperator) (l r : String) : Option String :=
  match op with
  | .equals => some (boolText (decide (l = r)))
  | .notEquals => some (boolText (decide (l ≠ r)))
  | .lessThan => some (boolText (decide (l < r)))
  | .lessOrEqual => some (boolText (decide (l ≤ r)))
  | .greaterThan => some (boolText (decide (r < l)))
  | .greaterOrEqual => some (boolText (decide (r ≤ l)))
  | .and => connective and l r
  | .or => connective or l r
  | .plus => arithmetic Scalars.add l r
  | .minus => arithmetic Scalars.sub l r
  | .multiply => arithmetic Scalars.mul l r
  | .divide => division Scalars.div l r
  | .modulo => division Scalars.rem l r
  | .like => some (boolText (contains l (withoutPercents r)))
  | .iLike =>
      some (boolText (contains (toLowercase l)
        (toLowercase (String.ofList (withoutPercents r))).toList))
  | .bitwiseAnd | .bitwiseOr | .bitwiseXor | .bitwiseShiftLeft | .bitwiseShiftRight => none

def unaryResult (op : UnaryOperator) (val : String) : Option String :=
  match op with
  | .not => (parseBool val).map fun b => boolText (!b)
  | .minus => (parseF64 val).map fun n => showF64 (Scalars.neg n)
  | .plus => (parseF64 val).map showF64
  | .bitwiseNot => (parseI64 val).map fun n => toString (-n - 1)

/-- The test of `IS NULL`. -/
def isNullText (val : String) : Bool :=
  let trimmed := String.ofList (trim val.toList)
  trimmed = "" || eqIgnoreAsciiCase trimmed "NULL"

def inRange (val low high : String) : Bool :=
  match parseF64 val, parseF64 low, parseF64 high with
  | some v, some l, some h => Scalars.le l v && Scalars.le v h
  | _, _, _ => decide (low ≤ val) && decide (val ≤ high)

def substring (s : String) (start : String) (len : Option String) : String :=
  let start := (parseUsize start.toList).getD 1
  let chars := s.toList.drop (start - 1)
  match len with
  | some len => String.ofList (chars.take ((parseUsize len.toList).getD 0))
  | none => String.ofList chars

/-- A call with the values of its arguments. -/
def functionResult (name : String) (args : List (Option String)) : Option String :=
  let arg0 := args[0]?.join
  let arg1 := args[1]?.join
  let arg2 := args[2]?.join
  match name with
  | "COUNT" => some "1"
  | "SUM" | "AVG" | "MIN" | "MAX" => arg0
  | "LENGTH" => arg0.map fun v => toString (asBytes v).length
  | "UPPER" => arg0.map toUppercase
  | "LOWER" => arg0.map toLowercase
  | "TRIM" => arg0.map fun s => String.ofList (trim s.toList)
  | "SUBSTRING" => some (substring (arg0.getD "") (arg1.getD "1") arg2)
  | "CONCAT" => some (String.join (args.filterMap id))
  | _ => arg0

def functionName (call : FunctionCall Expr) : String :=
  (call.name.parts.getLast?.map toUppercase).getD ""

def literalText : Literal → String
  | .number n => n
  | .string s => s
  | .bool b => boolText b
  | .null => "NULL"

end Operators

section Expressions

variable [Scalars] (row : List String) (desc : Option TupleDesc)

def columnValue (col : String) : Option String :=
  desc.bind fun desc =>
    (desc.fields.findIdx? fun field => eqIgnoreAsciiCase field.name col).bind fun idx => row[idx]?

mutual

def evaluateExpr : Expr → Option String
  | .literal lit => some (literalText lit)
  | .identifier col => columnValue row desc col
  | .qualifiedIdentifier _ column => columnValue row desc column
  | .binaryOp left op right => do
      let leftVal ← evaluateExpr left
      let rightVal ← evaluateExpr right
      binaryResult op leftVal rightVal
  | .unaryOp op expr => do
      let val ← evaluateExpr expr
      unaryResult op val
  | .isNull inner => do
      let val ← evaluateExpr inner
      pure (boolText (isNullText val))
  | .isNotNull inner => do
      let val ← evaluateExpr inner
      pure (boolText (!isNullText val))
  | .typeCast expr _ => evaluateExpr expr
  | .case operand whenClauses elseClause =>
      evaluateWhens (evaluateOperand operand) (evaluateElse elseClause) whenClauses
  | .function ⟨name, args, filter, overClause⟩ =>
      functionResult (functionName ⟨name, args, filter, overClause⟩) (evaluateArgs args)
  | .between expr negated low high => do
      let val ← evaluateExpr expr
      let lowVal ← evaluateExpr low
      let highVal ← evaluateExpr high
      pure (boolText (inRange val lowVal highVal != negated))
  | .inList expr negated list => do
      let val ← evaluateExpr expr
      pure (boolText (anyEquals val list != negated))
  | _ => none

def evaluateOperand : Option Expr → Option String
  | some expr => evaluateExpr expr
  | none => none

def evaluateElse : Option Expr → Option String
  | some expr => evaluateExpr expr
  | none => some "NULL"

/-- The clauses that are left. -/
def evaluateWhens (operandVal otherwise : Option String) :
    List (WhenClause Expr) → Option String
  | [] => otherwise
  | ⟨condition, result⟩ :: whenClauses => do
      let condVal ← evaluateExpr condition
      let chosen : Bool :=
        match operandVal with
        | some op => condVal = op
        | none => condVal = "true" ∨ condVal = "t"
      if chosen then evaluateExpr result else evaluateWhens operandVal otherwise whenClauses

def evaluateArgs : List (FunctionArg Expr) → List (Option String)
  | [] => []
  | .expr expr :: args => evaluateExpr expr :: evaluateArgs args
  | .star :: args => some "*" :: evaluateArgs args

def anyEquals (val : String) : List Expr → Bool
  | [] => false
  | expr :: list => evaluateExpr expr = some val || anyEquals val list

end

def evaluateWhere (whereClause : Expr) : Bool :=
  match evaluateExpr row desc whereClause with
  | some result => result = "true" ∨ result = "t"
  | none => false

end Expressions

end PostgressRs.Executor.Evaluation
