import PostgressRs.Executor.Grouping

/-!
Expressions of literals, columns and binary operators on a group of one row: when the
evaluator of groups returns what the evaluator of rows returns.
-/

namespace PostgressRs.Executor.EvaluatorAgreement

open PostgressRs.Executor.Evaluation
open PostgressRs.Executor.Grouping
open PostgressRs.Security.RowSecurity (parseBool boolText)
open PostgressRs.Sql.Ast
open PostgressRs.Types

/-- A number is never written as an empty text. -/
class LawfulScalars [Scalars] : Prop where
  showF64_ne (x : F64) : showF64 x ≠ ""

section Values

variable [Scalars]

/-- The operator has a result on the operands. -/
def Applicable (op : BinaryOperator) (l r : String) : Prop :=
  match op with
  | .and | .or => (parseBool l).isSome ∧ (parseBool r).isSome
  | .plus | .minus | .multiply => (parseF64 l).isSome ∧ (parseF64 r).isSome
  | .divide | .modulo =>
      (parseF64 l).isSome ∧ ∃ divisor, parseF64 r = some divisor ∧ Scalars.isZero divisor = false
  | .bitwiseAnd | .bitwiseOr | .bitwiseXor | .bitwiseShiftLeft | .bitwiseShiftRight => False
  | .equals | .notEquals | .lessThan | .lessOrEqual | .greaterThan | .greaterOrEqual | .like
  | .iLike => True

/-- Literals, columns and binary operations. -/
inductive Basic : Expr → Prop
  | literal (lit : Literal) : Basic (.literal lit)
  | identifier (col : String) : Basic (.identifier col)
  | binaryOp {left right : Expr} (op : BinaryOperator) :
      Basic left → Basic right → Basic (.binaryOp left op right)

/-- The value of an expression: columns have a field in the row, and operators have a
result. -/
inductive HasValue (row : List String) (desc : Option TupleDesc) : Expr → String → Prop
  | literal (lit : Literal) : HasValue row desc (.literal lit) (literalText lit)
  | identifier {col value : String} :
      columnValue row desc col = some value → HasValue row desc (.identifier col) value
  | binaryOp {left right : Expr} {op : BinaryOperator} {l r : String} :
      HasValue row desc left l → HasValue row desc right r → Applicable op l r →
      HasValue row desc (.binaryOp left op right) (evalBinaryOp l op r)

variable {row : List String} {desc : Option TupleDesc} {op : BinaryOperator} {l r : String}

omit [Scalars] in
theorem connective_eq_some_iff {f : Bool → Bool → Bool} {value : String} :
    connective f l r = some value ↔
      ((parseBool l).isSome ∧ (parseBool r).isSome) ∧
        value = boolText (f (truthOf l) (truthOf r)) := by
  simp only [connective, truthOf]
  cases hl : parseBool l with
  | none => simp
  | some a =>
      cases hr : parseBool r with
      | none => simp
      | some b => simp [eq_comm]

theorem arithmetic_eq_some_iff {f : F64 → F64 → F64} {value : String} :
    arithmetic f l r = some value ↔
      ((parseF64 l).isSome ∧ (parseF64 r).isSome) ∧ value = numberText f l r := by
  simp only [arithmetic, numberText, numberOr]
  cases hl : parseF64 l with
  | none => simp
  | some a =>
      cases hr : parseF64 r with
      | none => simp
      | some b => simp [eq_comm]

theorem division_eq_some_iff {f : F64 → F64 → F64} {value : String} :
    division f l r = some value ↔
      ((parseF64 l).isSome ∧
          ∃ divisor, parseF64 r = some divisor ∧ Scalars.isZero divisor = false) ∧
        value = quotientText f l r := by
  simp only [division, quotientText, numberOr]
  rcases Option.eq_none_or_eq_some (parseF64 l) with hl | ⟨a, hl⟩
  · simp [hl]
  rcases Option.eq_none_or_eq_some (parseF64 r) with hr | ⟨b, hr⟩
  · simp [hl, hr]
  cases hzero : Scalars.isZero b with
  | true => simp [hl, hr, hzero]
  | false => simpa [hl, hr, hzero] using eq_comm

omit [Scalars] in
theorem missing_eq_some_iff {result value : String} :
    none = some value ↔ False ∧ value = result := by
  rw [false_and, iff_false]
  exact (Option.some_ne_none value).symm

omit [Scalars] in
theorem total_eq_some_iff {result value : String} :
    some result = some value ↔ True ∧ value = result := by
  rw [Option.some.injEq, true_and, eq_comm]

/-- The two tables of operators agree where the stricter one has a result. -/
theorem binaryResult_eq_some_iff {value : String} :
    binaryResult op l r = some value ↔ Applicable op l r ∧ value = evalBinaryOp l op r := by
  cases op with
  | and => exact connective_eq_some_iff
  | or => exact connective_eq_some_iff
  | plus => exact arithmetic_eq_some_iff
  | minus => exact arithmetic_eq_some_iff
  | multiply => exact arithmetic_eq_some_iff
  | divide => exact division_eq_some_iff
  | modulo => exact division_eq_some_iff
  | bitwiseAnd | bitwiseOr | bitwiseXor | bitwiseShiftLeft | bitwiseShiftRight =>
      exact missing_eq_some_iff
  | equals | notEquals | lessThan | lessOrEqual | greaterThan | greaterOrEqual | like | iLike =>
      exact total_eq_some_iff

theorem evaluateExpr_eq_some_iff {expr : Expr} (hbasic : Basic expr) (value : String) :
    evaluateExpr row desc expr = some value ↔ HasValue row desc expr value := by
  induction hbasic generalizing value with
  | literal lit =>
      rw [evaluateExpr, Option.some.injEq]
      constructor
      · rintro rfl
        exact .literal lit
      · intro h
        cases h
        rfl
  | identifier col =>
      rw [evaluateExpr]
      constructor
      · exact .identifier
      · intro h
        cases h with
        | identifier hvalue => exact hvalue
  | binaryOp op _ _ ihleft ihright =>
      simp only [evaluateExpr, Option.bind_eq_bind, Option.bind_eq_some_iff]
      constructor
      · rintro ⟨l, hl, r, hr, hresult⟩
        obtain ⟨happlies, rfl⟩ := binaryResult_eq_some_iff.mp hresult
        exact .binaryOp ((ihleft l).mp hl) ((ihright r).mp hr) happlies
      · intro h
        cases h with
        | binaryOp hl hr happlies =>
            exact ⟨_, (ihleft _).mpr hl, _, (ihright _).mpr hr,
              binaryResult_eq_some_iff.mpr ⟨happlies, rfl⟩⟩

/-- Where there is a value, a group of one row has it as well. -/
theorem HasValue.evaluateExprWithGroup {expr : Expr} {value : String}
    (h : HasValue row desc expr value) :
    evaluateExprWithGroup desc [row] expr = value := by
  induction h with
  | literal lit => rfl
  | identifier hvalue =>
      rw [Grouping.evaluateExprWithGroup, List.head?_cons, Option.bind_some, hvalue,
        Option.getD_some]
  | binaryOp _ _ _ ihleft ihright => rw [Grouping.evaluateExprWithGroup, ihleft, ihright]

omit [Scalars] in
theorem boolText_ne (b : Bool) : boolText b ≠ "" := by
  cases b with
  | false => decide
  | true => decide

/-- Operators on groups always have a result. -/
theorem evalBinaryOp_ne [LawfulScalars] (l : String) (op : BinaryOperator) (r : String) :
    evalBinaryOp l op r ≠ "" := by
  have hquotient : ∀ f : F64 → F64 → F64, quotientText f l r ≠ "" := by
    intro f
    simp only [quotientText]
    split
    · decide
    · exact LawfulScalars.showF64_ne _
  cases op with
  | plus | minus | multiply => exact LawfulScalars.showF64_ne _
  | divide | modulo => exact hquotient _
  | bitwiseAnd | bitwiseOr | bitwiseXor | bitwiseShiftLeft | bitwiseShiftRight =>
      exact (by decide : "NULL" ≠ "")
  | equals | notEquals | lessThan | lessOrEqual | greaterThan | greaterOrEqual | like | iLike
  | and | or => exact boolText_ne _

end Values

section Rows

attribute [local instance] wholeNumbers

theorem lawful_wholeNumbers : LawfulScalars := by
  constructor
  intro x hempty
  cases x with
  | ofNat n => exact Nat.repr_ne_empty hempty
  | negSucc n =>
      have hlist := congrArg String.toList hempty
      have hsign : ("-" ++ Nat.repr (n + 1)).toList = [] := hlist
      simp at hsign

def priceColumns : TupleDesc :=
  ⟨[{ name := "price", typeOid := ⟨23⟩, attnum := 0, typmod := -1 }]⟩

/-- `price + 1`. -/
def increased : Expr :=
  .binaryOp (.identifier "price") .plus (.literal (.number "1"))

/-- `cost = '2'`. -/
def missingEquals : Expr :=
  .binaryOp (.identifier "cost") .equals (.literal (.string "2"))

end Rows

end PostgressRs.Executor.EvaluatorAgreement
