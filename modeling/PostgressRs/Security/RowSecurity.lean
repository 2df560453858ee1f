import PostgressRs.Sql.Ast
import PostgressRs.Types

/-!
Policies of row-level security (`src/security/rls.rs`) and how their expressions are
combined and evaluated (`src/server/eval.rs`).
-/

namespace PostgressRs.Security.RowSecurity

open PostgressRs.Sql.Ast (BinaryOperator)
open PostgressRs.Types

section Expressions

/-- `ε` has the expressions that are not a binary operation. -/
inductive Expr (ε : Type) where
  | binaryOp (left : Expr ε) (op : BinaryOperator) (right : Expr ε)
  | other (expr : ε)
deriving DecidableEq

/-- How the other expressions are evaluated, and the operators that are not `AND` or
`OR`. -/
structure Evaluation (ε : Type) where
  other : ε → List String → Option TupleDesc → Option String
  operate : BinaryOperator → String → String → Option String

/-- `parse::<bool>().ok()`. -/
def parseBool (s : String) : Option Bool :=
  if s = "true" then some true else if s = "false" then some false else none

def boolText (b : Bool) : String := if b then "true" else "false"

variable {ε : Type}

def evaluateExpr (eval : Evaluation ε) :
    Expr ε → List String → Option TupleDesc → Option String
  | .other expr, row, tupleDesc => eval.other expr row tupleDesc
  | .binaryOp left op right, row, tupleDesc => do
      let leftVal ← evaluateExpr eval left row tupleDesc
      let rightVal ← evaluateExpr eval right row tupleDesc
      match op with
      | .and =>
          let l ← parseBool leftVal
          let r ← parseBool rightVal
          pure (boolText (l && r))
      | .or =>
          let l ← parseBool leftVal
          let r ← parseBool rightVal
          pure (boolText (l || r))
      | op => eval.operate op leftVal rightVal

end Expressions

section Policies

inductive PolicyCommand where
  | all
  | select
  | insert
  | update
  | delete
deriving DecidableEq

inductive PolicyPermissive where
  | permissive
  | restrictive
deriving DecidableEq

structure Policy (ε : Type) where
  command : PolicyCommand
  permissive : PolicyPermissive
  roles : List String
  usingExpr : Option (Expr ε)

variable {ε : Type}

def Policy.new (command : PolicyCommand) : Policy ε where
  command := command
  permissive := .permissive
  roles := []
  usingExpr := none

def Policy.withUsing (self : Policy ε) (expr : Expr ε) : Policy ε :=
  { self with usingExpr := some expr }

def Policy.appliesToCommand (self : Policy ε) (cmd : PolicyCommand) : Bool :=
  self.command = .all ∨ self.command = cmd

def Policy.appliesToRole (self : Policy ε) (role : String) : Bool :=
  self.roles.isEmpty ∨ role ∈ self.roles

structure RlsFilter (ε : Type) where
  policies : List (Policy ε)
  command : PolicyCommand

namespace RlsFilter

def new (command : PolicyCommand) : RlsFilter ε where
  policies := []
  command := command

def addPolicy (self : RlsFilter ε) (policy : Policy ε) : RlsFilter ε :=
  if policy.appliesToCommand self.command then
    { self with policies := self.policies ++ [policy] }
  else self

def getUsingExpressions (self : RlsFilter ε) : List (Expr ε) :=
  self.policies.filterMap Policy.usingExpr

def combineUsingExpressions (self : RlsFilter ε) : Option (Expr ε) :=
  match self.getUsingExpressions with
  | [] => none
  | [expr] => some expr
  | first :: rest => some (rest.foldl (fun result expr => .binaryOp result .and expr) first)

end RlsFilter

end Policies

section Combination

variable {ε : Type} (eval : Evaluation ε) (row : List String) (tupleDesc : Option TupleDesc)

def Holds (expr : Expr ε) : Prop :=
  evaluateExpr eval expr row tupleDesc = some "true"

/-- Without an expression there is nothing to filter by. -/
def Passes (filter : RlsFilter ε) : Prop :=
  ∀ expr, filter.combineUsingExpressions = some expr → Holds eval row tupleDesc expr

/-- The policy has a `USING` expression that holds on the row. -/
def UsingHolds (policy : Policy ε) : Prop :=
  ∃ expr, policy.usingExpr = some expr ∧ Holds eval row tupleDesc expr

/-- A policy of the list that applies to the command and has a `USING` expression. -/
def InForce (policies : List (Policy ε)) (command : PolicyCommand) (policy : Policy ε) : Prop :=
  policy ∈ policies ∧ policy.appliesToCommand command = true ∧ policy.usingExpr.isSome = true

/-- What the policies allow a role: one permissive policy for it holds, and all
restrictive ones do. -/
def Admits (policies : List (Policy ε)) (command : PolicyCommand) (role : String) : Prop :=
  (∃ policy, InForce policies command policy ∧ policy.permissive = .permissive ∧
    policy.appliesToRole role = true ∧ UsingHolds eval row tupleDesc policy) ∧
  ∀ policy, InForce policies command policy → policy.permissive = .restrictive →
    policy.appliesToRole role = true → UsingHolds eval row tupleDesc policy

/-- If all policies hold, a permissive one is for the role.  If one does not hold, either
a restrictive one for the role does not hold, or no permissive one for the role does. -/
structure Decisive (policies : List (Policy ε)) (command : PolicyCommand) (role : String) :
    Prop where
  all : (∀ policy, InForce policies command policy → UsingHolds eval row tupleDesc policy) →
    ∃ policy, InForce policies command policy ∧ policy.permissive = .permissive ∧
      policy.appliesToRole role = true
  some : (∃ policy, InForce policies command policy ∧ ¬UsingHolds eval row tupleDesc policy) →
    (∃ policy, InForce policies command policy ∧ policy.permissive = .restrictive ∧
      policy.appliesToRole role = true ∧ ¬UsingHolds eval row tupleDesc policy) ∨
    ∀ policy, InForce policies command policy → policy.permissive = .permissive →
      policy.appliesToRole role = true → ¬UsingHolds eval row tupleDesc policy

def filterOf (policies : List (Policy ε)) (command : PolicyCommand) : RlsFilter ε :=
  policies.foldl RlsFilter.addPolicy (RlsFilter.new command)

variable {eval row tupleDesc}

theorem parseBool_eq_true {s : String} : parseBool s = some true ↔ s = "true" := by
  unfold parseBool
  split
  · rename_i h
    exact iff_of_true rfl h
  · rename_i h
    refine iff_of_false ?_ h
    split <;> simp

theorem boolText_eq_true {b : Bool} : boolText b = "true" ↔ b = true := by
  cases b <;> decide

/-- A conjunction holds if both sides do. -/
theorem holds_and {left right : Expr ε} :
    Holds eval row tupleDesc (.binaryOp left .and right) ↔
      Holds eval row tupleDesc left ∧ Holds eval row tupleDesc right := by
  unfold Holds
  rw [evaluateExpr]
  simp only [Option.bind_eq_bind, Option.bind_eq_some_iff, Option.pure_def, Option.some.injEq,
    boolText_eq_true, Bool.and_eq_true]
  constructor
  · rintro ⟨leftVal, hleft, rightVal, hright, l, hl, r, hr, rfl, rfl⟩
    rw [hleft, hright, parseBool_eq_true.mp hl, parseBool_eq_true.mp hr]
    exact ⟨rfl, rfl⟩
  · rintro ⟨hleft, hright⟩
    exact ⟨"true", hleft, "true", hright, true, rfl, true, rfl, rfl, rfl⟩

theorem holds_foldl_and (first : Expr ε) (rest : List (Expr ε)) :
    Holds eval row tupleDesc (rest.foldl (fun result expr => .binaryOp result .and expr) first) ↔
      ∀ expr ∈ first :: rest, Holds eval row tupleDesc expr := by
  induction rest generalizing first with
  | nil => simp
  | cons expr rest ih =>
      rw [List.foldl_cons, ih, List.forall_mem_cons, holds_and, and_assoc, List.forall_mem_cons,
        List.forall_mem_cons]

/-- The combined filter wants every expression to hold. -/
theorem passes_iff (filter : RlsFilter ε) :
    Passes eval row tupleDesc filter ↔
      ∀ expr ∈ filter.getUsingExpressions, Holds eval row tupleDesc expr := by
  unfold Passes RlsFilter.combineUsingExpressions
  match filter.getUsingExpressions with
  | [] => simp
  | [expr] => simp
  | first :: second :: rest =>
      rw [← holds_foldl_and]
      simp

theorem mem_filterOf {policies : List (Policy ε)} {command : PolicyCommand} {policy : Policy ε} :
    policy ∈ (filterOf policies command).policies ↔
      policy ∈ policies ∧ policy.appliesToCommand command = true := by
  have hfold : ∀ (policies : List (Policy ε)) (filter : RlsFilter ε),
      (policies.foldl RlsFilter.addPolicy filter).policies =
        filter.policies ++ policies.filter fun policy =>
          policy.appliesToCommand filter.command := by
    intro policies
    induction policies with
    | nil => simp
    | cons policy policies ih =>
        intro filter
        rw [List.foldl_cons, ih, RlsFilter.addPolicy]
        split
        · rename_i happlies
          rw [List.filter_cons, if_pos happlies, List.append_assoc, List.singleton_append]
        · rename_i happlies
          rw [List.filter_cons, if_neg happlies]
  rw [filterOf, hfold, RlsFilter.new, List.nil_append, List.mem_filter]

theorem passes_filterOf_iff {policies : List (Policy ε)} {command : PolicyCommand} :
    Passes eval row tupleDesc (filterOf policies command) ↔
      ∀ policy, InForce policies command policy → UsingHolds eval row tupleDesc policy := by
  rw [passes_iff]
  constructor
  · rintro h policy ⟨hmem, happlies, hsome⟩
    obtain ⟨expr, hexpr⟩ := Option.isSome_iff_exists.mp hsome
    refine ⟨expr, hexpr, h expr ?_⟩
    exact List.mem_filterMap.mpr ⟨policy, mem_filterOf.mpr ⟨hmem, happlies⟩, hexpr⟩
  · intro h expr hexpr
    obtain ⟨policy, hpolicy, hexpr⟩ := List.mem_filterMap.mp hexpr
    obtain ⟨hmem, happlies⟩ := mem_filterOf.mp hpolicy
    obtain ⟨expr', hexpr', hholds⟩ := h policy ⟨hmem, happlies, by rw [hexpr]; rfl⟩
    cases hexpr.symm.trans hexpr'
    exact hholds

/-- The combined filter lets a role see what its policies allow exactly if no policy
stands in for the ones it is combined with. -/
theorem passes_iff_admits_iff (eval : Evaluation ε) (row : List String)
    (tupleDesc : Option TupleDesc) (policies : List (Policy ε)) (command : PolicyCommand)
    (role : String) :
    (Passes eval row tupleDesc (filterOf policies command) ↔
        Admits eval row tupleDesc policies command role) ↔
      Decisive eval row tupleDesc policies command role := by
  rw [passes_filterOf_iff]
  constructor
  · intro h
    refine ⟨?_, ?_⟩
    · intro hall
      obtain ⟨⟨policy, hforce, hpermissive, hrole, -⟩, -⟩ := h.mp hall
      exact ⟨policy, hforce, hpermissive, hrole⟩
    · rintro ⟨stray, hstray, hfails⟩
      have hnot : ¬Admits eval row tupleDesc policies command role := fun hadmits =>
        hfails (h.mpr hadmits stray hstray)
      by_contra hcontra
      obtain ⟨hrestrictive, hpermissive⟩ := not_or.mp hcontra
      apply hnot
      constructor
      · by_contra hnone
        exact hpermissive fun policy hforce hkind hrole hholds =>
          hnone ⟨policy, hforce, hkind, hrole, hholds⟩
      · intro policy hforce hkind hrole
        by_contra hholds
        exact hrestrictive ⟨policy, hforce, hkind, hrole, hholds⟩
  · intro hdecisive
    constructor
    · intro hall
      obtain ⟨policy, hforce, hpermissive, hrole⟩ := hdecisive.all hall
      exact ⟨⟨policy, hforce, hpermissive, hrole, hall policy hforce⟩,
        fun policy hforce _ _ => hall policy hforce⟩
    · rintro ⟨⟨policy, hforce, hpermissive, hrole, hholds⟩, hrestrictive⟩ stray hstray
      by_contra hfails
      rcases hdecisive.some ⟨stray, hstray, hfails⟩ with
          ⟨policy', hforce', hkind', hrole', hno⟩ | hno
      · exact hno (hrestrictive policy' hforce' hkind' hrole')
      · exact hno policy hforce hpermissive hrole hholds

end Combination

section Example

/-- Expressions that are `TRUE` or `FALSE`. -/
def constants : Evaluation Bool where
  other b _ _ := some (boolText b)
  operate _ _ _ := none

def permissivePolicy (b : Bool) : Policy Bool :=
  (Policy.new .select).withUsing (.other b)

/-- Of two permissive policies one holds, and the row is hidden. -/
theorem permissive_policies_conjoined :
    Admits constants [] none [permissivePolicy true, permissivePolicy false] .select "alice" ∧
      ¬Passes constants [] none
        (filterOf [permissivePolicy true, permissivePolicy false] .select) := by
  constructor
  · refine ⟨⟨permissivePolicy true, ⟨List.mem_cons_self, rfl, rfl⟩, rfl, rfl, _, rfl, rfl⟩, ?_⟩
    rintro policy ⟨hmem, -, -⟩ hrestrictive
    simp only [List.mem_cons, List.not_mem_nil, or_false] at hmem
    rcases hmem with rfl | rfl <;> cases hrestrictive
  · intro hpasses
    have hfalse := passes_filterOf_iff.mp hpasses (permissivePolicy false)
      ⟨List.mem_cons_of_mem _ List.mem_cons_self, rfl, rfl⟩
    obtain ⟨expr, hexpr, hholds⟩ := hfalse
    cases hexpr
    have htext : boolText false = "true" := Option.some.inj hholds
    exact absurd htext (by decide)

end Example

end PostgressRs.Security.RowSecurity
