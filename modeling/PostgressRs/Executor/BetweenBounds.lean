import PostgressRs.Executor.ThreeValuedLogic

/-!
`BETWEEN` compares numbers where all three operands are numbers, and texts elsewhere; the
comparison operators always compare texts.
-/

namespace PostgressRs.Executor.BetweenBounds

open PostgressRs.Executor.Evaluation
open PostgressRs.Executor.ThreeValuedLogic (conj neg connective_boolText parseBool_boolText)
open PostgressRs.Security.RowSecurity (boolText)
open PostgressRs.Sql.Ast
open PostgressRs.Types

section Bounds

variable [Scalars] (row : List String) (desc : Option TupleDesc)

/-- `(x >= l) AND (x <= h)`. -/
def bounds (x l h : Expr) : Expr :=
  conj (.binaryOp x .greaterOrEqual l) (.binaryOp x .lessOrEqual h)

/-- The test of the two bounds on texts. -/
def textInRange (val low high : String) : Bool := decide (low ≤ val) && decide (val ≤ high)

/-- Three numbers lie in the same order as their texts. -/
def NumbersLikeTexts (val low high : String) : Prop :=
  ∀ v l h, parseF64 val = some v → parseF64 low = some l → parseF64 high = some h →
    (Scalars.le l v && Scalars.le v h) = textInRange val low high

/-- As far as the three expressions have values. -/
def BoundsLikeTexts (x l h : Expr) : Prop :=
  ∀ val low high, evaluateExpr row desc x = some val → evaluateExpr row desc l = some low →
    evaluateExpr row desc h = some high → NumbersLikeTexts val low high

variable {row desc} {x l h : Expr} {val low high : String}

theorem inRange_eq_iff :
    inRange val low high = textInRange val low high ↔ NumbersLikeTexts val low high := by
  rw [inRange, NumbersLikeTexts, textInRange]
  cases hval : parseF64 val with
  | none => simp
  | some v =>
      cases hlow : parseF64 low with
      | none => simp
      | some l =>
          cases hhigh : parseF64 high with
          | none => simp
          | some h => simp

/-- Where the three expressions have values, both sides are tests of them. -/
theorem evaluateExpr_between (hx : evaluateExpr row desc x = some val)
    (hl : evaluateExpr row desc l = some low) (hh : evaluateExpr row desc h = some high)
    (negated : Bool) :
    evaluateExpr row desc (.between x negated l h) =
      some (boolText (inRange val low high != negated)) := by
  rw [evaluateExpr, hx, hl, hh]
  rfl

theorem evaluateExpr_bounds (hx : evaluateExpr row desc x = some val)
    (hl : evaluateExpr row desc l = some low) (hh : evaluateExpr row desc h = some high) :
    evaluateExpr row desc (bounds x l h) = some (boolText (textInRange val low high)) := by
  simp only [bounds, conj, evaluateExpr, hx, hl, hh, Option.bind_eq_bind, Option.bind_some,
    binaryResult, connective_boolText]
  rfl

/-- Without a value for one of the expressions neither side has one. -/
theorem missing_or_values (row : List String) (desc : Option TupleDesc) (x l h : Expr) :
    (∃ val low high, evaluateExpr row desc x = some val ∧ evaluateExpr row desc l = some low ∧
        evaluateExpr row desc h = some high) ∨
      (evaluateExpr row desc x = none ∨ evaluateExpr row desc l = none ∨
          evaluateExpr row desc h = none) ∧
        (∀ negated, evaluateExpr row desc (.between x negated l h) = none) ∧
        evaluateExpr row desc (bounds x l h) = none := by
  cases hx : evaluateExpr row desc x with
  | none => simp [evaluateExpr, bounds, conj, hx]
  | some val =>
      cases hl : evaluateExpr row desc l with
      | none => simp [evaluateExpr, bounds, conj, hx, hl]
      | some low =>
          cases hh : evaluateExpr row desc h with
          | none => simp [evaluateExpr, bounds, conj, hx, hl, hh]
          | some high => exact .inl ⟨val, low, high, rfl, rfl, rfl⟩

omit [Scalars] in
theorem boolText_injective {a b : Bool} : boolText a = boolText b ↔ a = b := by
  cases a <;> cases b <;> decide

theorem evaluateExpr_not_between (x l h : Expr) :
    evaluateExpr row desc (.between x true l h) =
      evaluateExpr row desc (neg (.between x false l h)) := by
  rcases missing_or_values row desc x l h with ⟨val, low, high, hx, hl, hh⟩ | ⟨-, hnone, -⟩
  · rw [neg, evaluateExpr_between hx hl hh, evaluateExpr.eq_def]
    simp only [evaluateExpr_between hx hl hh, Option.bind_eq_bind, Option.bind_some, unaryResult,
      parseBool_boolText, Option.map_some]
    cases inRange val low high <;> rfl
  · rw [hnone, neg, evaluateExpr.eq_def]
    simp only [hnone, Option.bind_eq_bind, Option.bind_none]

/-- `NOT BETWEEN` is always the negation, and `BETWEEN` the conjunction of its bounds where
numbers lie in the order of their texts. -/
theorem between_iff (row : List String) (desc : Option TupleDesc) (x l h : Expr) :
    (evaluateExpr row desc (.between x false l h) = evaluateExpr row desc (bounds x l h) ∧
      evaluateExpr row desc (.between x true l h) =
        evaluateExpr row desc (neg (.between x false l h))) ↔
      BoundsLikeTexts row desc x l h := by
  rw [and_iff_left (evaluateExpr_not_between x l h)]
  rcases missing_or_values row desc x l h with
    ⟨val, low, high, hx, hl, hh⟩ | ⟨hmissing, hnone, hbounds⟩
  · rw [evaluateExpr_between hx hl hh, evaluateExpr_bounds hx hl hh, Option.some.injEq,
      boolText_injective, Bool.bne_false, inRange_eq_iff, BoundsLikeTexts]
    constructor
    · intro hlike val' low' high' hx' hl' hh'
      rw [hx] at hx'
      rw [hl] at hl'
      rw [hh] at hh'
      cases hx'
      cases hl'
      cases hh'
      exact hlike
    · intro hlike
      exact hlike val low high hx hl hh
  · rw [hnone, hbounds]
    refine iff_of_true rfl ?_
    intro val low high hx hl hh
    rw [hx, hl, hh] at hmissing
    simp at hmissing

end Bounds

section Rows

attribute [local instance] wholeNumbers

def numberText (n : String) : Expr := .literal (.number n)

/-- `5 BETWEEN 1 AND 10` is true, and `(5 >= 1) AND (5 <= 10)` is not. -/
theorem between_ten_ne_bounds :
    evaluateExpr [] none (.between (numberText "5") false (numberText "1") (numberText "10")) ≠
      evaluateExpr [] none (bounds (numberText "5") (numberText "1") (numberText "10")) := by
  decide +kernel

end Rows

end PostgressRs.Executor.BetweenBounds
