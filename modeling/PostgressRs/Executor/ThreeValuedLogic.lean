import PostgressRs.Executor.Evaluation
import PostgressRs.Lib.TruthValues

/-!
Conditions built with `AND`, `OR` and `NOT`, where an expression without a value is unknown.
-/

namespace PostgressRs.Executor.ThreeValuedLogic

open PostgressRs.Executor.Evaluation
open PostgressRs.Lib.TruthValues
open PostgressRs.Security.RowSecurity (parseBool boolText)
open PostgressRs.Sql.Ast
open PostgressRs.Types

section Connectives

variable [Scalars] (row : List String) (desc : Option TupleDesc)

/-- The expression evaluates to `true` or `false`, or has no value. -/
def HasTruth (expr : Expr) (truth : Truth) : Prop :=
  evaluateExpr row desc expr = truth.map boolText

instance (expr : Expr) (truth : Truth) : Decidable (HasTruth row desc expr truth) :=
  inferInstanceAs (Decidable (_ = _))

def conj (a b : Expr) : Expr := .binaryOp a .and b

def disj (a b : Expr) : Expr := .binaryOp a .or b

def neg (a : Expr) : Expr := .unaryOp .not a

/-- Any nesting of the connectives over expressions that evaluate to truth values. -/
inductive Condition : Expr → Prop
  | leaf {expr : Expr} (truth : Truth) : HasTruth row desc expr truth → Condition expr
  | conj {a b : Expr} : Condition a → Condition b → Condition (conj a b)
  | disj {a b : Expr} : Condition a → Condition b → Condition (disj a b)
  | neg {a : Expr} : Condition a → Condition (neg a)

variable {row desc} {a b : Expr} {s t : Truth}

omit [Scalars] in
theorem parseBool_boolText (value : Bool) : parseBool (boolText value) = some value := by
  cases value with
  | false => rfl
  | true => rfl

omit [Scalars] in
theorem connective_boolText (op : Bool → Bool → Bool) (l r : Bool) :
    connective op (boolText l) (boolText r) = some (boolText (op l r)) := by
  simp only [connective, parseBool_boolText, Option.bind_eq_bind, Option.bind_some,
    Option.pure_def]

theorem binaryOp_hasTruth {op : BinaryOperator} {f : Bool → Bool → Bool}
    (hop : ∀ l r, binaryResult op l r = connective f l r) (ha : HasTruth row desc a s)
    (hb : HasTruth row desc b t) :
    HasTruth row desc (.binaryOp a op b) (Truth.lifted f s t) := by
  rw [HasTruth, evaluateExpr, ha, hb]
  cases s with
  | none => rfl
  | some l =>
      cases t with
      | none => rfl
      | some r =>
          simp only [Option.map_some, Option.bind_eq_bind, Option.bind_some, Truth.lifted, hop,
            connective_boolText]

theorem conj_hasTruth (ha : HasTruth row desc a s) (hb : HasTruth row desc b t) :
    HasTruth row desc (conj a b) (Truth.lifted Bool.and s t) :=
  binaryOp_hasTruth (fun _ _ => rfl) ha hb

theorem disj_hasTruth (ha : HasTruth row desc a s) (hb : HasTruth row desc b t) :
    HasTruth row desc (disj a b) (Truth.lifted Bool.or s t) :=
  binaryOp_hasTruth (fun _ _ => rfl) ha hb

theorem neg_hasTruth (ha : HasTruth row desc a s) : HasTruth row desc (neg a) s.not := by
  rw [HasTruth, neg, evaluateExpr, ha]
  cases s with
  | none => rfl
  | some value =>
      simp only [Option.map_some, Option.bind_eq_bind, Option.bind_some, unaryResult,
        parseBool_boolText, Truth.not]

theorem Condition.hasTruth (h : Condition row desc a) : ∃ truth, HasTruth row desc a truth := by
  induction h with
  | leaf truth htruth => exact ⟨truth, htruth⟩
  | conj _ _ iha ihb =>
      obtain ⟨s, hs⟩ := iha
      obtain ⟨t, ht⟩ := ihb
      exact ⟨_, conj_hasTruth hs ht⟩
  | disj _ _ iha ihb =>
      obtain ⟨s, hs⟩ := iha
      obtain ⟨t, ht⟩ := ihb
      exact ⟨_, disj_hasTruth hs ht⟩
  | neg _ ih =>
      obtain ⟨s, hs⟩ := ih
      exact ⟨_, neg_hasTruth hs⟩

theorem HasTruth.evaluateWhere (h : HasTruth row desc a s) :
    evaluateWhere row desc a = s.holds := by
  rw [Evaluation.evaluateWhere, h]
  rcases s with _ | _ | _ <;> rfl

theorem HasTruth.eq_none_iff (h : HasTruth row desc a s) :
    evaluateExpr row desc a = none ↔ s = none := by
  rw [h, Option.map_eq_none_iff]

theorem HasTruth.eq_true_iff (h : HasTruth row desc a s) :
    evaluateExpr row desc a = some "true" ↔ s = some true := by
  rw [h]
  rcases s with _ | _ | _ <;> decide

variable (row desc) in
/-- One of the two is true and the other one has no value. -/
def OneUnknown (a b : Expr) : Prop :=
  evaluateExpr row desc a = some "true" ∧ evaluateExpr row desc b = none ∨
    evaluateExpr row desc a = none ∧ evaluateExpr row desc b = some "true"

instance (a b : Expr) : Decidable (OneUnknown row desc a b) :=
  inferInstanceAs (Decidable (_ ∨ _))

theorem oneUnknown_iff_masked (ha : HasTruth row desc a s) (hb : HasTruth row desc b t) :
    OneUnknown row desc a b ↔ Truth.Masked s t := by
  rw [OneUnknown, ha.eq_true_iff, ha.eq_none_iff, hb.eq_true_iff, hb.eq_none_iff, Truth.Masked]

/-- Conjunctions and De Morgan's law always come out right, disjunctions unless a true side
meets one without a value. -/
theorem where_connectives_iff (ha : Condition row desc a) (hb : Condition row desc b) :
    (evaluateWhere row desc (disj a b) = (evaluateWhere row desc a || evaluateWhere row desc b) ∧
      evaluateWhere row desc (conj a b) = (evaluateWhere row desc a && evaluateWhere row desc b) ∧
      evaluateWhere row desc (neg (conj a b)) =
        evaluateWhere row desc (disj (neg a) (neg b))) ↔
      ¬OneUnknown row desc a b := by
  obtain ⟨s, hs⟩ := ha.hasTruth
  obtain ⟨t, ht⟩ := hb.hasTruth
  have hconj := conj_hasTruth hs ht
  have hneg := neg_hasTruth hconj
  have hdisj := disj_hasTruth (neg_hasTruth hs) (neg_hasTruth ht)
  rw [(disj_hasTruth hs ht).evaluateWhere, hconj.evaluateWhere, hneg.evaluateWhere,
    hdisj.evaluateWhere, hs.evaluateWhere, ht.evaluateWhere, oneUnknown_iff_masked hs ht,
    ← Truth.holds_or, ← Truth.holds_and, Truth.holds_lifted_or_iff, Truth.not_lifted_and]
  constructor
  · rintro ⟨hor, _, _⟩
    exact hor
  · intro hor
    exact ⟨hor, Truth.holds_lifted_and s t, rfl⟩

end Connectives

section Rows

attribute [local instance] wholeNumbers

/-- `a = '1'` on a row whose column `a` is `1`. -/
def knownColumn : Expr := .binaryOp (.identifier "a") .equals (.literal (.string "1"))

/-- `b = '1'`, where there is no column `b`. -/
def unknownColumn : Expr := .binaryOp (.identifier "b") .equals (.literal (.string "1"))

def oneColumn : TupleDesc := ⟨[{ name := "a", typeOid := ⟨25⟩, attnum := 0, typmod := -1 }]⟩

theorem where_connectives_iff_known :
    evaluateWhere ["1"] (some oneColumn) (disj knownColumn knownColumn) = true ∧
      ¬OneUnknown ["1"] (some oneColumn) knownColumn knownColumn := by
  have htruth : HasTruth ["1"] (some oneColumn) knownColumn (some true) := by
    decide +kernel
  have hcondition := Condition.leaf _ htruth
  have hknown : ¬OneUnknown ["1"] (some oneColumn) knownColumn knownColumn := by
    decide +kernel
  have hall := (where_connectives_iff hcondition hcondition).mpr hknown
  refine ⟨?_, hknown⟩
  rw [hall.1]
  decide +kernel

/-- A true condition is lost in a disjunction with one that has no value. -/
theorem disj_loses_true_side :
    HasTruth ["1"] (some oneColumn) unknownColumn none ∧
      HasTruth ["1"] (some oneColumn) knownColumn (some true) ∧
      evaluateWhere ["1"] (some oneColumn) (disj unknownColumn knownColumn) ≠
        (evaluateWhere ["1"] (some oneColumn) unknownColumn ||
          evaluateWhere ["1"] (some oneColumn) knownColumn) := by
  decide +kernel

end Rows

end PostgressRs.Executor.ThreeValuedLogic
