import Mathlib.Data.List.Basic
import PostgressRs.Server.Queries
import PostgressRs.Sql.Ast

/-!
Set operations on the rows of selects (`src/executor/select/set_ops.rs`), and the loop over
them (`src/executor/select/mod.rs`).
-/

namespace PostgressRs.Executor.SetOperations

open PostgressRs.Server.Queries (SelectResult)
open PostgressRs.Sql.Ast

section Rows

abbrev Row : Type := List String

/-- Unless the row was seen before. -/
def insertNew (seen : List Row) (row : Row) : List Row :=
  if row ∈ seen then seen else seen ++ [row]

/-- The rows that the counts of the others leave or take, in order. -/
def intersectAll : List Row → List Row → List Row
  | _, [] => []
  | counted, row :: rows =>
      if row ∈ counted then row :: intersectAll (counted.erase row) rows
      else intersectAll counted rows

def exceptAll : List Row → List Row → List Row
  | _, [] => []
  | counted, row :: rows =>
      if row ∈ counted then exceptAll (counted.erase row) rows
      else row :: exceptAll counted rows

def combineRows (left right : List Row) : SetOperator → List Row
  | .union => right.foldl insertNew (left.foldl insertNew [])
  | .unionAll => left ++ right
  | .intersect => left.filter (· ∈ right)
  | .intersectAll => intersectAll right left
  | .except => left.filter (· ∉ right)
  | .exceptAll => exceptAll right left

def applySetOperation (left right : SelectResult) (operator : SetOperator) : SelectResult :=
  ⟨left.columns, combineRows left.rows right.rows operator⟩

end Rows

section Selects

variable {ε : Type} (evaluate : SelectStatement → Except ε SelectResult)

mutual

/-- The clauses before the set operations are evaluated by a function of their own. -/
def executeSelect : SelectStatement → Except ε SelectResult
  | .mk distinctClause selectList fromClause whereClause groupBy having orderBy limit offset
      locking operations => do
      let result ← evaluate (.mk distinctClause selectList fromClause whereClause groupBy having
        orderBy limit offset locking [])
      applySetOperations result operations

def applySetOperations (result : SelectResult) :
    List (SetOperation SelectStatement) → Except ε SelectResult
  | [] => pure result
  | ⟨operator, select⟩ :: operations => do
      let right ← executeSelect select
      applySetOperations (applySetOperation result right operator) operations

end

end Selects

section Distinct

def distinct (rows : List Row) : List Row := rows.foldl insertNew []

theorem mem_insertNew {seen : List Row} {row row' : Row} :
    row' ∈ insertNew seen row ↔ row' ∈ seen ∨ row' = row := by
  rw [insertNew]
  split
  · rename_i hmem
    constructor
    · exact Or.inl
    · rintro (h | rfl)
      · exact h
      · exact hmem
  · rw [List.mem_append, List.mem_singleton]

theorem mem_foldl_insertNew {seen rows : List Row} {row : Row} :
    row ∈ rows.foldl insertNew seen ↔ row ∈ seen ∨ row ∈ rows := by
  induction rows generalizing seen with
  | nil => simp
  | cons row' rows ih =>
      rw [List.foldl_cons, ih, mem_insertNew, List.mem_cons, or_assoc]

theorem nodup_foldl_insertNew {seen rows : List Row} (h : seen.Nodup) :
    (rows.foldl insertNew seen).Nodup := by
  induction rows generalizing seen with
  | nil => exact h
  | cons row rows ih =>
      apply ih
      rw [insertNew]
      split
      · exact h
      · rename_i hnew
        rw [List.nodup_append]
        refine ⟨h, List.nodup_singleton row, ?_⟩
        rintro seen hseen row' hrow rfl
        rw [List.mem_singleton.mp hrow] at hseen
        exact hnew hseen

theorem insertNew_of_mem {seen : List Row} {row : Row} (h : row ∈ seen) :
    insertNew seen row = seen := if_pos h

theorem insertNew_of_notMem {seen : List Row} {row : Row} (h : row ∉ seen) :
    insertNew seen row = seen ++ [row] := if_neg h

/-- A row that was repeated is not new either. -/
theorem foldl_distinct (seen rows : List Row) :
    (distinct rows).foldl insertNew seen = rows.foldl insertNew seen := by
  induction rows using List.reverseRecOn with
  | nil => rfl
  | append_singleton rows row ih =>
      have hlast : distinct (rows ++ [row]) = insertNew (distinct rows) row := by
        rw [distinct, List.foldl_append]
        rfl
      rw [hlast, List.foldl_append]
      change _ = insertNew (rows.foldl insertNew seen) row
      by_cases hmem : row ∈ distinct rows
      · have hrow : row ∈ rows := by
          have hor := mem_foldl_insertNew.mp hmem
          exact hor.resolve_left List.not_mem_nil
        rw [insertNew_of_mem hmem, ih, insertNew_of_mem (mem_foldl_insertNew.mpr (.inr hrow))]
      · rw [insertNew_of_notMem hmem, List.foldl_append, ih]
        rfl

theorem distinct_append (left right : List Row) :
    distinct (left ++ right) = right.foldl insertNew (distinct left) :=
  List.foldl_append

theorem distinct_distinct_append (left right : List Row) :
    distinct (distinct left ++ right) = distinct (left ++ right) := by
  rw [distinct_append, distinct_append]
  exact congrArg (right.foldl insertNew) (foldl_distinct [] left)

theorem distinct_append_distinct (left right : List Row) :
    distinct (left ++ distinct right) = distinct (left ++ right) := by
  rw [distinct_append, distinct_append, foldl_distinct]

end Distinct

section Chains

/-- The operators that associate to the left. -/
inductive ChainOperator where
  | union
  | unionAll
  | except
  | exceptAll
deriving DecidableEq

def ChainOperator.toSetOperator : ChainOperator → SetOperator
  | .union => .union
  | .unionAll => .unionAll
  | .except => .except
  | .exceptAll => .exceptAll

/-- The operands behind the first, each with the operator before it. -/
abbrev Chain : Type := List (ChainOperator × List Row)

def nestedRows : List Row → Chain → List Row
  | first, [] => first
  | first, (operator, rows) :: chain =>
      combineRows first (nestedRows rows chain) operator.toSetOperator

def leftRows (first : List Row) (chain : Chain) : List Row :=
  chain.foldl (fun rows link => combineRows rows link.2 link.1.toSetOperator) first

/-- The chains for which it does not matter which operators come first. -/
def Associates (operators : List ChainOperator) : Prop :=
  operators.length ≤ 1 ∨ (∀ operator ∈ operators, operator = .unionAll) ∨
    (∀ operator ∈ operators, operator = .union ∨ operator = .unionAll) ∧
      operators.head? = some .union ∧ operators.getLast? = some .union

instance decidableAssociates (operators : List ChainOperator) :
    Decidable (Associates operators) :=
  inferInstanceAs (Decidable (_ ∨ _ ∨ _))

def allRows (chain : Chain) : List Row := chain.flatMap Prod.snd

def operatorsOf (chain : Chain) : List ChainOperator := chain.map Prod.fst

theorem combineRows_union (left right : List Row) :
    combineRows left right .union = distinct (left ++ right) :=
  (distinct_append left right).symm

theorem forall_mem_operatorsOf_cons {p : ChainOperator → Prop} {link : ChainOperator × List Row}
    {chain : Chain} (h : ∀ operator ∈ operatorsOf (link :: chain), p operator) :
    p link.1 ∧ ∀ operator ∈ operatorsOf chain, p operator :=
  List.forall_mem_cons.mp h

theorem nestedRows_unionAll {chain : Chain}
    (h : ∀ operator ∈ operatorsOf chain, operator = .unionAll) (first : List Row) :
    nestedRows first chain = first ++ allRows chain := by
  induction chain generalizing first with
  | nil => exact (List.append_nil first).symm
  | cons link chain ih =>
      obtain ⟨operator, rows⟩ := link
      obtain ⟨rfl, hchain⟩ := forall_mem_operatorsOf_cons h
      exact congrArg (first ++ ·) (ih hchain rows)

theorem leftRows_unionAll {chain : Chain}
    (h : ∀ operator ∈ operatorsOf chain, operator = .unionAll) (first : List Row) :
    leftRows first chain = first ++ allRows chain := by
  induction chain generalizing first with
  | nil => exact (List.append_nil first).symm
  | cons link chain ih =>
      obtain ⟨operator, rows⟩ := link
      obtain ⟨rfl, hchain⟩ := forall_mem_operatorsOf_cons h
      calc
        leftRows first ((.unionAll, rows) :: chain) = leftRows (first ++ rows) chain := rfl
        _ = first ++ rows ++ allRows chain := ih hchain _
        _ = first ++ allRows ((.unionAll, rows) :: chain) := List.append_assoc _ _ _

/-- Under a union the operands of unions could all be appended. -/
theorem distinct_nestedRows {chain : Chain}
    (h : ∀ operator ∈ operatorsOf chain, operator = .union ∨ operator = .unionAll)
    (rows first : List Row) :
    distinct (rows ++ nestedRows first chain) = distinct (rows ++ (first ++ allRows chain)) := by
  induction chain generalizing rows first with
  | nil =>
      change distinct (rows ++ first) = distinct (rows ++ (first ++ []))
      rw [List.append_nil]
  | cons link chain ih =>
      obtain ⟨operator, next⟩ := link
      obtain ⟨hoperator, hchain⟩ := forall_mem_operatorsOf_cons h
      have hnext : distinct (rows ++ (first ++ nestedRows next chain)) =
          distinct (rows ++ (first ++ allRows ((operator, next) :: chain))) := by
        rw [← List.append_assoc, ih hchain, List.append_assoc]
        rfl
      rcases hoperator with rfl | rfl
      · change distinct (rows ++ combineRows first (nestedRows next chain) .union) = _
        rw [combineRows_union, distinct_append_distinct]
        exact hnext
      · exact hnext

theorem distinct_leftRows {chain : Chain}
    (h : ∀ operator ∈ operatorsOf chain, operator = .union ∨ operator = .unionAll)
    (first rows : List Row) :
    distinct (leftRows first chain ++ rows) = distinct (first ++ (allRows chain ++ rows)) := by
  induction chain generalizing first with
  | nil => rfl
  | cons link chain ih =>
      obtain ⟨operator, next⟩ := link
      obtain ⟨hoperator, hchain⟩ := forall_mem_operatorsOf_cons h
      have hall : first ++ (allRows ((operator, next) :: chain) ++ rows) =
          first ++ next ++ (allRows chain ++ rows) := by
        rw [allRows, List.flatMap_cons, List.append_assoc, List.append_assoc]
        rfl
      change distinct (leftRows (combineRows first next operator.toSetOperator) chain ++ rows) = _
      rw [ih hchain, hall]
      rcases hoperator with rfl | rfl
      · change distinct (combineRows first next .union ++ _) = _
        rw [combineRows_union, distinct_distinct_append]
      · rfl

theorem nestedRows_union {chain : Chain}
    (h : ∀ operator ∈ operatorsOf chain, operator = .union ∨ operator = .unionAll)
    (hhead : (operatorsOf chain).head? = some .union) (first : List Row) :
    nestedRows first chain = distinct (first ++ allRows chain) := by
  cases chain with
  | nil => cases hhead
  | cons link chain =>
      obtain ⟨operator, next⟩ := link
      cases hhead
      obtain ⟨-, hchain⟩ := forall_mem_operatorsOf_cons h
      change combineRows first (nestedRows next chain) .union = _
      rw [combineRows_union, distinct_nestedRows hchain]
      rfl

theorem leftRows_union {chain : Chain}
    (h : ∀ operator ∈ operatorsOf chain, operator = .union ∨ operator = .unionAll)
    (hlast : (operatorsOf chain).getLast? = some .union) (first : List Row) :
    leftRows first chain = distinct (first ++ allRows chain) := by
  induction chain using List.reverseRecOn with
  | nil => cases hlast
  | append_singleton chain link _ =>
      obtain ⟨operator, next⟩ := link
      have hoperators : operatorsOf (chain ++ [(operator, next)]) =
          operatorsOf chain ++ [operator] :=
        List.map_append
      rw [hoperators, List.getLast?_append, List.getLast?_singleton] at hlast
      obtain rfl : operator = .union := by simpa using hlast
      have hchain : ∀ operator ∈ operatorsOf chain, operator = .union ∨ operator = .unionAll := by
        intro operator hoperator
        apply h
        rw [hoperators]
        exact List.mem_append_left _ hoperator
      have hall : allRows (chain ++ [(.union, next)]) = allRows chain ++ next := by
        rw [allRows, List.flatMap_append, List.flatMap_singleton]
        rfl
      rw [leftRows, List.foldl_append, hall]
      change combineRows (leftRows first chain) next .union = _
      rw [combineRows_union, distinct_leftRows hchain]

theorem nestedRows_of_associates {chain : Chain} (h : Associates (operatorsOf chain))
    (first : List Row) : nestedRows first chain = leftRows first chain := by
  rcases h with hlength | hall | ⟨hunion, hhead, hlast⟩
  · match chain, hlength with
    | [], _ => rfl
    | [link], _ => rfl
  · rw [nestedRows_unionAll hall, leftRows_unionAll hall]
  · rw [nestedRows_union hunion hhead, leftRows_union hunion hlast]

end Chains

section Fillings

/-- No row, one row, or the row twice. -/
inductive Filling where
  | empty
  | single
  | double

def Filling.rows : Filling → List Row
  | .empty => []
  | .single => [["1"]]
  | .double => [["1"], ["1"]]

def filled (fillings : List (ChainOperator × Filling)) : Chain :=
  fillings.map fun link => (link.1, link.2.rows)

def emptied (operators : List ChainOperator) : List (ChainOperator × Filling) :=
  operators.map fun operator => (operator, .empty)

theorem map_fst_emptied (operators : List ChainOperator) :
    (emptied operators).map Prod.fst = operators := by
  rw [emptied, List.map_map]
  exact List.map_id _

def subtracts : ChainOperator → Bool
  | .except => true
  | .exceptAll => true
  | _ => false

theorem combineRows_nil (operator : ChainOperator) :
    combineRows [] [] operator.toSetOperator = [] := by
  cases operator <;> rfl

theorem combineRows_single (operator : ChainOperator) :
    combineRows Filling.single.rows [] operator.toSetOperator = Filling.single.rows := by
  cases operator <;> decide

theorem nil_combineRows {operator : ChainOperator} (h : subtracts operator = true)
    (right : List Row) : combineRows [] right operator.toSetOperator = [] := by
  cases operator <;> first | rfl | cases h

theorem single_combineRows {operator : ChainOperator} (h : subtracts operator = true) :
    combineRows Filling.single.rows Filling.single.rows operator.toSetOperator = [] := by
  cases operator <;> first | decide | cases h

theorem filled_emptied_cons (operator : ChainOperator) (operators : List ChainOperator) :
    filled (emptied (operator :: operators)) = (operator, []) :: filled (emptied operators) := rfl

theorem leftRows_cons (operator : ChainOperator) (first rows : List Row) (chain : Chain) :
    leftRows first ((operator, rows) :: chain) =
      leftRows (combineRows first rows operator.toSetOperator) chain := rfl

theorem leftRows_emptied_nil (operators : List ChainOperator) :
    leftRows [] (filled (emptied operators)) = [] := by
  induction operators with
  | nil => rfl
  | cons operator operators ih =>
      rw [filled_emptied_cons, leftRows_cons, combineRows_nil, ih]

theorem leftRows_emptied_single (operators : List ChainOperator) :
    leftRows Filling.single.rows (filled (emptied operators)) = Filling.single.rows := by
  induction operators with
  | nil => rfl
  | cons operator operators ih =>
      rw [filled_emptied_cons, leftRows_cons, combineRows_single, ih]

theorem leftRows_emptied_double (operators : List ChainOperator) :
    leftRows Filling.double.rows (filled (emptied operators)) =
      if .union ∈ operators then Filling.single.rows else Filling.double.rows := by
  induction operators with
  | nil => rfl
  | cons operator operators ih =>
      rw [filled_emptied_cons, leftRows_cons]
      cases operator with
      | union =>
          rw [if_pos List.mem_cons_self]
          exact leftRows_emptied_single operators
      | _ => exact ih.trans (if_congr (by simp) rfl rfl)

theorem nestedRows_emptied_nil (operators : List ChainOperator) :
    nestedRows [] (filled (emptied operators)) = [] := by
  induction operators with
  | nil => rfl
  | cons operator operators ih =>
      change combineRows [] (nestedRows [] (filled (emptied operators))) _ = []
      rw [ih, combineRows_nil]

theorem nestedRows_emptied_single (operators : List ChainOperator) :
    nestedRows Filling.single.rows (filled (emptied operators)) = Filling.single.rows := by
  cases operators with
  | nil => rfl
  | cons operator operators =>
      change combineRows _ (nestedRows [] (filled (emptied operators))) _ = _
      rw [nestedRows_emptied_nil, combineRows_single]

/-- Contents on which the nested chain and the one to the left differ. -/
def Separates (first : Filling) (chain : List (ChainOperator × Filling)) : Prop :=
  ¬(nestedRows first.rows (filled chain)).Perm (leftRows first.rows (filled chain))

theorem filled_append (chain chain' : List (ChainOperator × Filling)) :
    filled (chain ++ chain') = filled chain ++ filled chain' := List.map_append

/-- `UNION ALL` keeps the repeated row of the first operand, a union behind it does not. -/
theorem separates_unionAll_head {operators : List ChainOperator} (h : .union ∈ operators) :
    Separates .double (emptied (.unionAll :: operators)) := by
  have hnested : nestedRows Filling.double.rows (filled (emptied (.unionAll :: operators))) =
      Filling.double.rows := by
    change Filling.double.rows ++ nestedRows [] (filled (emptied operators)) = _
    rw [nestedRows_emptied_nil, List.append_nil]
  have hleft : leftRows Filling.double.rows (filled (emptied (.unionAll :: operators))) =
      Filling.single.rows := by
    rw [leftRows_emptied_double, if_pos (List.mem_cons_of_mem _ h)]
  rw [Separates, hnested, hleft]
  decide

theorem separates_unionAll_last (operators : List ChainOperator) :
    Separates .empty (emptied (.union :: operators) ++ [(.unionAll, .double)]) := by
  have hnested : (nestedRows []
      (filled (emptied (.union :: operators) ++ [(.unionAll, .double)]))).Nodup := by
    change (combineRows [] _ .union).Nodup
    rw [combineRows_union]
    exact nodup_foldl_insertNew List.nodup_nil
  have hleft : leftRows [] (filled (emptied (.union :: operators) ++ [(.unionAll, .double)])) =
      Filling.double.rows := by
    rw [filled_append, leftRows, List.foldl_append]
    change combineRows (leftRows [] (filled (emptied (.union :: operators)))) _ .unionAll = _
    rw [leftRows_emptied_nil]
    rfl
  intro hperm
  have hdouble := hperm.nodup hnested
  rw [Filling.rows, hleft] at hdouble
  revert hdouble
  decide

/-- What is subtracted last from all that is before it is subtracted from less. -/
theorem separates_subtracts {operator first : ChainOperator} (h : subtracts operator = true)
    (before operators : List ChainOperator) :
    Separates .single
      (emptied (first :: before) ++ (operator, .single) :: emptied operators) := by
  have hinner : nestedRows []
      (filled (emptied before ++ (operator, .single) :: emptied operators)) = [] := by
    induction before with
    | nil => exact nil_combineRows h _
    | cons next before ih =>
        change combineRows [] (nestedRows []
          (filled (emptied before ++ (operator, .single) :: emptied operators))) _ = []
        rw [ih, combineRows_nil]
  have hnested : nestedRows Filling.single.rows
      (filled (emptied (first :: before) ++ (operator, .single) :: emptied operators)) =
        Filling.single.rows := by
    change combineRows _ (nestedRows []
      (filled (emptied before ++ (operator, .single) :: emptied operators))) _ = _
    rw [hinner, combineRows_single]
  have hleft : leftRows Filling.single.rows
      (filled (emptied (first :: before) ++ (operator, .single) :: emptied operators)) = [] := by
    rw [filled_append, leftRows, List.foldl_append]
    change leftRows (combineRows (leftRows _ (filled (emptied (first :: before)))) _ _)
      (filled (emptied operators)) = []
    rw [leftRows_emptied_single, single_combineRows h, leftRows_emptied_nil]
  rw [Separates, hnested, hleft]
  decide

/-- What is subtracted twice, or subtracted first and then added. -/
theorem separates_subtracts_head {operator : ChainOperator} (h : subtracts operator = true)
    (next : ChainOperator) (operators : List ChainOperator) :
    ∃ filling, Separates .single
      ((operator, filling) :: (next, .single) :: emptied operators) := by
  cases hnext : subtracts next with
  | true =>
      refine ⟨.single, ?_⟩
      have hnested : nestedRows Filling.single.rows
          (filled ((operator, .single) :: (next, .single) :: emptied operators)) =
            Filling.single.rows := by
        change combineRows _ (combineRows _
          (nestedRows Filling.single.rows (filled (emptied operators))) _) _ = _
        rw [nestedRows_emptied_single, single_combineRows hnext, combineRows_single]
      have hleft : leftRows Filling.single.rows
          (filled ((operator, .single) :: (next, .single) :: emptied operators)) = [] := by
        change leftRows (combineRows (combineRows _ _ _) _ _) (filled (emptied operators)) = []
        rw [single_combineRows h, nil_combineRows hnext, leftRows_emptied_nil]
      rw [Separates, hnested, hleft]
      decide
  | false =>
      refine ⟨.empty, ?_⟩
      have hadd : combineRows [] Filling.single.rows next.toSetOperator = Filling.single.rows := by
        cases next <;> first | decide | cases hnext
      have hnested : nestedRows Filling.single.rows
          (filled ((operator, .empty) :: (next, .single) :: emptied operators)) = [] := by
        change combineRows _ (combineRows []
          (nestedRows Filling.single.rows (filled (emptied operators))) _) _ = _
        rw [nestedRows_emptied_single, hadd, single_combineRows h]
      have hleft : leftRows Filling.single.rows
          (filled ((operator, .empty) :: (next, .single) :: emptied operators)) ≠ [] := by
        change leftRows (combineRows (combineRows _ [] _) _ _) (filled (emptied operators)) ≠ []
        rw [combineRows_single]
        cases next with
        | union =>
            change leftRows Filling.single.rows _ ≠ []
            rw [leftRows_emptied_single]
            decide
        | unionAll =>
            change leftRows Filling.double.rows _ ≠ []
            rw [leftRows_emptied_double]
            split <;> decide
        | except => cases hnext
        | exceptAll => cases hnext
      intro hperm
      rw [hnested] at hperm
      exact hleft hperm.symm.eq_nil

theorem exists_separates_of_subtracts {operators : List ChainOperator}
    (hlength : 1 < operators.length) (h : ∃ operator ∈ operators, subtracts operator = true) :
    ∃ first chain, chain.map Prod.fst = operators ∧ Separates first chain := by
  obtain ⟨operator, hmem, hsubtracts⟩ := h
  obtain ⟨before, behind, rfl⟩ := List.append_of_mem hmem
  cases before with
  | nil =>
      cases behind with
      | nil => simp at hlength
      | cons next behind =>
          obtain ⟨filling, hseparates⟩ := separates_subtracts_head hsubtracts next behind
          refine ⟨.single, _, ?_, hseparates⟩
          rw [List.map_cons, List.map_cons, map_fst_emptied]
          rfl
  | cons first before =>
      refine ⟨.single, _, ?_, @separates_subtracts operator first hsubtracts before behind⟩
      rw [List.map_append, List.map_cons, map_fst_emptied, map_fst_emptied]

theorem exists_separates_of_union {operators : List ChainOperator}
    (h : ∀ operator ∈ operators, operator = .union ∨ operator = .unionAll)
    (hne : ¬∀ operator ∈ operators, operator = .unionAll)
    (hends : ¬(operators.head? = some .union ∧ operators.getLast? = some .union)) :
    ∃ first chain, chain.map Prod.fst = operators ∧ Separates first chain := by
  cases operators with
  | nil => exact absurd (fun operator hoperator => by cases hoperator) hne
  | cons first rest =>
      obtain ⟨hfirst, hrest⟩ := List.forall_mem_cons.mp h
      rcases hfirst with rfl | rfl
      · induction rest using List.reverseRecOn with
        | nil => exact absurd ⟨rfl, rfl⟩ hends
        | append_singleton rest last _ =>
            have hlast : last = .unionAll := by
              rcases hrest last (List.mem_append_right _ List.mem_cons_self) with rfl | rfl
              · refine absurd ⟨rfl, ?_⟩ hends
                rw [← List.cons_append, List.getLast?_append, List.getLast?_singleton]
                rfl
              · rfl
            subst hlast
            refine ⟨.empty, _, ?_, separates_unionAll_last rest⟩
            rw [List.map_append, map_fst_emptied]
            rfl
      · have hmem : .union ∈ rest := by
          by_contra hnone
          apply hne
          rw [List.forall_mem_cons]
          refine ⟨rfl, fun operator hoperator => ?_⟩
          rcases hrest operator hoperator with rfl | rfl
          · exact absurd hoperator hnone
          · rfl
        exact ⟨.double, _, map_fst_emptied _, separates_unionAll_head hmem⟩

/-- In every other chain there are contents for which it matters. -/
theorem exists_separates {operators : List ChainOperator} (h : ¬Associates operators) :
    ∃ first chain, chain.map Prod.fst = operators ∧ Separates first chain := by
  obtain ⟨hlength, hall, hunion⟩ := by simpa only [Associates, not_or] using h
  by_cases hsubtracts : ∃ operator ∈ operators, subtracts operator = true
  · exact exists_separates_of_subtracts (by omega) hsubtracts
  · have hplain : ∀ operator ∈ operators, operator = .union ∨ operator = .unionAll := by
      intro operator hoperator
      cases operator with
      | union => exact .inl rfl
      | unionAll => exact .inr rfl
      | _ => exact absurd ⟨_, hoperator, rfl⟩ hsubtracts
    exact exists_separates_of_union hplain hall fun hends => hunion ⟨hplain, hends⟩

end Fillings

section Evaluation

variable {ε : Type} (evaluate : SelectStatement → Except ε SelectResult)

/-- The select with these set operations instead of its own. -/
def withOperations : SelectStatement → List (SetOperation SelectStatement) → SelectStatement
  | .mk distinctClause selectList fromClause whereClause groupBy having orderBy limit offset
      locking _, operations =>
      .mk distinctClause selectList fromClause whereClause groupBy having orderBy limit offset
        locking operations

/-- The selects behind the first, each with the operator before it. -/
abbrev Links : Type := List (ChainOperator × SelectStatement)

/-- Every select has all those behind it as its right operand. -/
def nestedOperations : Links → List (SetOperation SelectStatement)
  | [] => []
  | (operator, select) :: links =>
      [⟨operator.toSetOperator, withOperations select (nestedOperations links)⟩]

def evaluateBody (select : SelectStatement) : Except ε SelectResult :=
  evaluate (withOperations select [])

/-- The operators applied from the left to the right. -/
def leftResult (first : SelectStatement) (links : Links) : Except ε SelectResult := do
  let result ← evaluateBody evaluate first
  links.foldlM
    (fun result link => do
      let right ← evaluateBody evaluate link.2
      pure (applySetOperation result right link.1.toSetOperator))
    result

def chainOf : Links → Except ε Chain
  | [] => pure []
  | (operator, select) :: links => do
      let result ← evaluateBody evaluate select
      let chain ← chainOf links
      pure ((operator, result.rows) :: chain)

theorem operatorsOf_chainOf {links : Links} {chain : Chain}
    (h : chainOf evaluate links = .ok chain) : operatorsOf chain = links.map Prod.fst := by
  induction links generalizing chain with
  | nil =>
      cases h
      rfl
  | cons link links ih =>
      obtain ⟨operator, select⟩ := link
      rw [chainOf] at h
      cases hresult : evaluateBody evaluate select with
      | error e =>
          rw [hresult] at h
          cases h
      | ok result =>
          rw [hresult] at h
          cases hchain : chainOf evaluate links with
          | error e =>
              rw [hchain] at h
              cases h
          | ok chain' =>
              rw [hchain] at h
              cases h
              exact congrArg (operator :: ·) (ih hchain)

theorem executeSelect_withOperations (select : SelectStatement)
    (operations : List (SetOperation SelectStatement)) :
    executeSelect evaluate (withOperations select operations) = (do
      let result ← evaluateBody evaluate select
      applySetOperations evaluate result operations) := by
  cases select
  rw [withOperations, executeSelect]
  rfl

theorem executeSelect_nested (first : SelectStatement) (links : Links) :
    executeSelect evaluate (withOperations first (nestedOperations links)) = (do
      let result ← evaluateBody evaluate first
      let chain ← chainOf evaluate links
      pure ⟨result.columns, nestedRows result.rows chain⟩) := by
  induction links generalizing first with
  | nil =>
      rw [executeSelect_withOperations, nestedOperations]
      cases evaluateBody evaluate first <;> rfl
  | cons link links ih =>
      obtain ⟨operator, select⟩ := link
      rw [executeSelect_withOperations, nestedOperations]
      cases evaluateBody evaluate first with
      | error e => rfl
      | ok result =>
          change applySetOperations evaluate result _ = _
          rw [applySetOperations, ih, chainOf]
          cases evaluateBody evaluate select with
          | error e => rfl
          | ok right => cases chainOf evaluate links <;> rfl

theorem foldlM_links (links : Links) (result : SelectResult) :
    links.foldlM
        (fun result link => do
          let right ← evaluateBody evaluate link.2
          pure (applySetOperation result right link.1.toSetOperator))
        result = (do
      let chain ← chainOf evaluate links
      pure ⟨result.columns, leftRows result.rows chain⟩) := by
  induction links generalizing result with
  | nil => rfl
  | cons link links ih =>
      obtain ⟨operator, select⟩ := link
      rw [List.foldlM_cons, chainOf]
      cases evaluateBody evaluate select with
      | error e => rfl
      | ok right =>
          change List.foldlM _ (applySetOperation result right operator.toSetOperator) links = _
          rw [ih]
          cases chainOf evaluate links <;> rfl

theorem leftResult_eq (first : SelectStatement) (links : Links) :
    leftResult evaluate first links = (do
      let result ← evaluateBody evaluate first
      let chain ← chainOf evaluate links
      pure ⟨result.columns, leftRows result.rows chain⟩) := by
  rw [leftResult]
  cases evaluateBody evaluate first with
  | error e => rfl
  | ok result => exact foldlM_links evaluate links result

theorem executeSelect_nested_of_associates {links : Links}
    (h : Associates (links.map Prod.fst)) (first : SelectStatement) :
    executeSelect evaluate (withOperations first (nestedOperations links)) =
      leftResult evaluate first links := by
  rw [executeSelect_nested, leftResult_eq]
  cases evaluateBody evaluate first with
  | error e => rfl
  | ok result =>
      cases hchain : chainOf evaluate links with
      | error e => rfl
      | ok chain =>
          rw [← operatorsOf_chainOf evaluate hchain] at h
          change Except.ok _ = Except.ok _
          rw [nestedRows_of_associates h]

end Evaluation

end PostgressRs.Executor.SetOperations
