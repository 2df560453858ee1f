import PostgressRs.Executor.MergeJoin

/-!
The hash join is a relational join as well, of the rows that have a key
(`src/executor/select/algorithms.rs`).
-/

namespace PostgressRs.Executor.HashJoin

open PostgressRs.Executor.Evaluation
open PostgressRs.Executor.HeapAccess (Row)
open PostgressRs.Executor.Joins
open PostgressRs.Executor.MergeJoin (fieldsOf fieldsOf_append rowsOuter)
open PostgressRs.Lib.ThetaJoin
open PostgressRs.Sql.Ast
open PostgressRs.Types

section Keys

variable [Scalars] (desc : Option TupleDesc) (l r : Expr)

/-- Both rows have a key, and the same one. -/
def KeysMatch (left right : List String) : Prop :=
  evaluateExpr left desc l = evaluateExpr right desc r ∧ evaluateExpr left desc l ≠ none

instance (left right : List String) : Decidable (KeysMatch desc l r left right) :=
  inferInstanceAs (Decidable (_ ∧ _))

theorem keysMatch_iff {left right : List String} {key : String}
    (hkey : evaluateExpr left desc l = some key) :
    KeysMatch desc l r left right ↔ evaluateExpr right desc r = some key := by
  rw [KeysMatch, hkey]
  constructor
  · rintro ⟨heq, -⟩
    exact heq.symm
  · intro heq
    exact ⟨heq.symm, Option.some_ne_none key⟩

theorem keysMatch_swap {left right : List String} :
    KeysMatch desc l r left right ↔ KeysMatch desc r l right left := by
  constructor
  · rintro ⟨heq, hne⟩
    exact ⟨heq.symm, heq ▸ hne⟩
  · rintro ⟨heq, hne⟩
    exact ⟨heq.symm, heq ▸ hne⟩

variable {desc l r}

theorem hasPartner_iff {others : List Row} {row : Row} :
    hasPartner desc l r others row = true ↔
      ∃ other ∈ others, KeysMatch desc l r row.2 other.2 := by
  rw [hasPartner]
  cases hkey : evaluateExpr row.2 desc l with
  | none =>
      constructor
      · intro h
        cases h
      · rintro ⟨other, -, -, hne⟩
        exact absurd hkey hne
  | some key =>
      simp only [List.any_eq_true, decide_eq_true_iff, keysMatch_iff desc l r hkey]

end Keys

section Table

variable [Scalars] {desc : Option TupleDesc} {l r : Expr}

/-- The fields of the rows with a key, in order. -/
def rowsWithKey (desc : Option TupleDesc) (r : Expr) (rows : List Row) (key : String) :
    List (List String) :=
  (rows.filter fun row => evaluateExpr row.2 desc r = some key).map Prod.snd

theorem rowsWithKey_append (rows rows' : List Row) (key : String) :
    rowsWithKey desc r (rows ++ rows') key =
      rowsWithKey desc r rows key ++ rowsWithKey desc r rows' key := by
  rw [rowsWithKey, List.filter_append, List.map_append]
  rfl

/-- An entry holds the rows of its key, and a key of no row has no entry. -/
def Built (table : HashTable) (rows : String → List (List String)) : Prop :=
  ∀ key, table key = if rows key = [] then none else some (rows key)

theorem Built.buildRow {table : HashTable} {before : List Row}
    (h : Built table (rowsWithKey desc r before)) (row : Row) :
    Built (buildRow desc (.binaryOp l .equals r) table row)
      (rowsWithKey desc r (before ++ [row])) := by
  intro key
  have hrow : rowsWithKey desc r [row] key =
      if evaluateExpr row.2 desc r = some key then [row.2] else [] := by
    rw [rowsWithKey, List.filter_singleton]
    by_cases hkey : evaluateExpr row.2 desc r = some key
    · simp [hkey]
    · simp [hkey]
  rw [rowsWithKey_append, hrow, Joins.buildRow]
  cases hvalue : evaluateExpr row.2 desc r with
  | none =>
      rw [if_neg (Option.some_ne_none key).symm, List.append_nil]
      exact h key
  | some key' =>
      change (table.push key' row.2) key = _
      rw [HashTable.push]
      rcases eq_or_ne key key' with rfl | hne
      · have hentry : (table key).getD [] = rowsWithKey desc r before key := by
          rw [h key]
          split
          · rename_i hnone
            exact hnone.symm
          · rfl
        rw [Function.update_self, hentry, if_pos rfl, if_neg]
        simp
      · have hother : ¬some key' = some key := by
          rintro ⟨⟩
          exact hne rfl
        rw [Function.update_of_ne hne, if_neg hother, List.append_nil]
        exact h key

theorem built_buildTable (rows : List Row) :
    Built (buildTable desc (.binaryOp l .equals r) rows) (rowsWithKey desc r rows) := by
  have hfoldl (table : HashTable) (before : List Row)
      (h : Built table (rowsWithKey desc r before)) :
      Built (rows.foldl (Joins.buildRow desc (.binaryOp l .equals r)) table)
        (rowsWithKey desc r (before ++ rows)) := by
    induction rows generalizing table before with
    | nil => rwa [List.append_nil]
    | cons row rows ih =>
        rw [List.append_cons]
        exact ih _ _ (h.buildRow row)
  exact hfoldl (fun _ => none) [] fun _ => rfl

end Table

section Probe

variable [Scalars] {desc : Option TupleDesc} {l r : Expr} {left right : List Row}

omit [Scalars] in
theorem fieldsOf_flatMap (f : Row → List Row) (rows : List Row) :
    fieldsOf (rows.flatMap f) = (rows : Multiset Row).bind fun row => fieldsOf (f row) := by
  rw [fieldsOf, List.map_flatMap]
  exact (Multiset.coe_bind rows fun row => (f row).map Prod.snd).symm

omit [Scalars] in
theorem fieldsOf_map (f : Row → Row) (rows : List Row) :
    fieldsOf (rows.map f) = (rows : Multiset Row).map fun row => (f row).2 := by
  rw [fieldsOf, List.map_map, Multiset.map_coe]
  rfl

/-- The rows that the probing of `joinType` looks at. -/
def probedRows (desc : Option TupleDesc) (l : Expr) (joinType : JoinType)
    (rows : Multiset (List String)) : Multiset (List String) :=
  if joinType = .left then rows.filter fun row => evaluateExpr row desc l ≠ none else rows

/-- The partners of a probed row, or the row with padding. -/
theorem fieldsOf_probeRow (joinType : JoinType) (count : Nat) (row : Row) :
    fieldsOf (probeRow desc (.binaryOp l .equals r) joinType count
        (buildTable desc (.binaryOp l .equals r) right) row) =
      ((fieldsOf right).filter (KeysMatch desc l r row.2)).map (row.2 ++ ·) +
        if joinType = .left ∧ evaluateExpr row.2 desc l ≠ none ∧
            ∀ row' ∈ fieldsOf right, ¬KeysMatch desc l r row.2 row' then
          {row.2 ++ blanks count} else 0 := by
  rw [probeRow]
  cases hkey : evaluateExpr row.2 desc l with
  | none =>
      have hnone : (fieldsOf right).filter (KeysMatch desc l r row.2) = 0 := by
        apply Multiset.filter_eq_nil.mpr
        rintro row' - ⟨-, hne⟩
        exact hne hkey
      have hfalse : ¬(joinType = .left ∧ (none : Option String) ≠ none ∧
          ∀ row' ∈ fieldsOf right, ¬KeysMatch desc l r row.2 row') := fun h => h.2.1 rfl
      rw [hnone, if_neg hfalse]
      rfl
  | some key =>
      have hrows : (fieldsOf right).filter (KeysMatch desc l r row.2) =
          (rowsWithKey desc r right key : Multiset (List String)) := by
        rw [rowsWithKey, fieldsOf, Multiset.filter_coe, List.filter_map]
        congr 2
        apply List.filter_congr
        intro row' _
        exact decide_eq_decide.mpr (keysMatch_iff desc l r hkey)
      have hnone : (∀ row' ∈ fieldsOf right, ¬KeysMatch desc l r row.2 row') ↔
          rowsWithKey desc r right key = [] := by
        rw [← Multiset.filter_eq_nil, hrows, Multiset.coe_eq_zero]
      have htable := @built_buildTable _ desc l r right key
      by_cases hempty : rowsWithKey desc r right key = []
      · rw [if_pos hempty] at htable
        simp only [htable, hrows, hnone]
        rw [hempty]
        by_cases hleft : joinType = .left
        · rw [if_pos hleft, if_pos ⟨hleft, Option.some_ne_none key, rfl⟩]
          rfl
        · rw [if_neg hleft, if_neg (fun h => hleft h.1)]
          rfl
      · rw [if_neg hempty] at htable
        simp only [htable, hrows, hnone]
        rw [if_neg (fun h => hempty h.2.2), add_zero, fieldsOf, List.map_map]
        rfl

omit [Scalars] in
theorem alone_rows (m : List String → List String → Prop) [∀ a b, Decidable (m a b)]
    (rows others : List Row) :
    alone m (fieldsOf rows) (fieldsOf others) =
      ((rows : Multiset Row).filter fun row => ∀ row' ∈ fieldsOf others, ¬m row.2 row').map
        Prod.snd := by
  have hrows : fieldsOf rows = (rows : Multiset Row).map Prod.snd := rfl
  rw [alone, hrows, Multiset.filter_map]
  rfl

omit [Scalars] in
theorem joined_rows (m : List String → List String → Prop) [∀ a b, Decidable (m a b)]
    (joinType : JoinType) (leftCount rightCount : Nat) :
    (rowsOuter joinType leftCount rightCount).pairs (joined m (fieldsOf left) (fieldsOf right)) =
      (left : Multiset Row).bind fun row =>
        ((fieldsOf right).filter (m row.2)).map (row.2 ++ ·) := by
  rw [Outer.pairs, joined, Multiset.map_bind, fieldsOf, ← Multiset.map_coe, Multiset.bind_map]
  simp only [Multiset.map_map]
  rfl

theorem joined_probedRows (joinType : JoinType) (rows others : Multiset (List String)) :
    joined (KeysMatch desc l r) (probedRows desc l joinType rows) others =
      joined (KeysMatch desc l r) rows others := by
  rw [probedRows]
  split
  · have hlacking : Separate (KeysMatch desc l r)
        (rows.filter fun row => ¬evaluateExpr row desc l ≠ none) others := by
      rintro row hrow row' - ⟨-, hne⟩
      exact (Multiset.mem_filter.mp hrow).2 hne
    have hsplit := Multiset.filter_add_not (fun row => evaluateExpr row desc l ≠ none) rows
    have hjoined := congrArg (joined (KeysMatch desc l r) · others) hsplit
    rwa [joined_add_left, joined_of_separate hlacking, add_zero] at hjoined
  · rfl

/-- What the first loop of the join gives. -/
theorem fieldsOf_probed (joinType : JoinType) (leftCount count : Nat) :
    fieldsOf (left.flatMap (probeRow desc (.binaryOp l .equals r) joinType count
        (buildTable desc (.binaryOp l .equals r) right))) =
      (rowsOuter joinType leftCount count).pairs
          (joined (KeysMatch desc l r) (fieldsOf left) (fieldsOf right)) +
        if joinType = .left then
          (alone (KeysMatch desc l r) (probedRows desc l joinType (fieldsOf left))
            (fieldsOf right)).map (· ++ blanks count)
        else 0 := by
  rw [fieldsOf_flatMap]
  simp only [fieldsOf_probeRow]
  rw [Multiset.bind_add, joined_rows]
  congr 1
  rw [bind_ite_singleton _ fun row : Row => row.2 ++ blanks count]
  split
  · rename_i hjoin
    have hrows : fieldsOf left = (left : Multiset Row).map Prod.snd := rfl
    rw [probedRows, if_pos hjoin, alone, hrows, Multiset.filter_map, Multiset.filter_map,
      Multiset.filter_filter, Multiset.map_map]
    congr 1
    apply Multiset.filter_congr
    intro row _
    constructor
    · rintro ⟨-, hkeyed, hnone⟩
      exact ⟨hnone, hkeyed⟩
    · rintro ⟨hnone, hkeyed⟩
      exact ⟨hjoin, hkeyed, hnone⟩
  · rename_i hjoin
    rw [Multiset.filter_eq_nil.mpr fun row _ h => hjoin h.1]
    rfl

theorem fieldsOf_unmatchedRight (count : Nat) :
    fieldsOf ((right.filter (!rightMatched desc (.binaryOp l .equals r) left ·)).map fun row =>
        (⟨⟨0⟩, 0⟩, (paddedLeft count row).2)) =
      (alone (fun row' row => KeysMatch desc l r row row') (fieldsOf right) (fieldsOf left)).map
        (blanks count ++ ·) := by
  have hfilter : right.filter (!rightMatched desc (.binaryOp l .equals r) left ·) =
      right.filter fun row => ∀ row' ∈ fieldsOf left, ¬KeysMatch desc l r row' row.2 := by
    apply List.filter_congr
    intro row _
    rw [Bool.eq_iff_iff, Bool.not_eq_true', ← Bool.not_eq_true, decide_eq_true_iff, rightMatched,
      hasPartner_iff]
    simp only [fieldsOf, Multiset.mem_coe, List.mem_map, forall_exists_index, and_imp,
      forall_apply_eq_imp_iff₂, not_exists, not_and]
    exact forall₂_congr fun row' _ => not_congr (keysMatch_swap desc r l)
  rw [fieldsOf_map, alone_rows, Multiset.map_map, hfilter, ← Multiset.filter_coe]
  rfl

theorem fieldsOf_unmatchedLeft (count : Nat) :
    fieldsOf ((left.filter (!leftMatched desc (.binaryOp l .equals r) right ·)).map
        (paddedRight count)) =
      (alone (KeysMatch desc l r) (fieldsOf left) (fieldsOf right)).map (· ++ blanks count) := by
  have hfilter : left.filter (!leftMatched desc (.binaryOp l .equals r) right ·) =
      left.filter fun row => ∀ row' ∈ fieldsOf right, ¬KeysMatch desc l r row.2 row' := by
    apply List.filter_congr
    intro row _
    rw [Bool.eq_iff_iff, Bool.not_eq_true', ← Bool.not_eq_true, decide_eq_true_iff, leftMatched,
      hasPartner_iff]
    simp only [fieldsOf, Multiset.mem_coe, List.mem_map, forall_exists_index, and_imp,
      forall_apply_eq_imp_iff₂, not_exists, not_and]
  rw [fieldsOf_map, alone_rows, Multiset.map_map, hfilter, ← Multiset.filter_coe]
  rfl

/-- Left rows without a key are dropped by a `LEFT JOIN`, and have no partner in any other. -/
theorem fieldsOf_hashJoin (joinType : JoinType) :
    fieldsOf (hashJoin desc left right (.binaryOp l .equals r) joinType) =
      (rowsOuter joinType (firstWidth left) (rightColCount left right)).join
        (KeysMatch desc l r) (probedRows desc l joinType (fieldsOf left)) (fieldsOf right) := by
  rw [hashJoin, fieldsOf_append, fieldsOf_append, fieldsOf_probed joinType (firstWidth left),
    Outer.join, joined_probedRows]
  have hnil : fieldsOf [] = 0 := rfl
  cases joinType with
  | inner | cross | lateral =>
      simp only [reduceCtorEq, or_self, if_false, hnil]
      rw [add_zero]
      rfl
  | left =>
      simp only [reduceCtorEq, or_self, if_false, if_true, hnil]
      rw [add_zero]
      rfl
  | right =>
      simp only [reduceCtorEq, true_or, if_false, if_true, fieldsOf_unmatchedRight, hnil]
      rw [add_zero]
      rfl
  | full =>
      simp only [reduceCtorEq, or_true, if_false, if_true, fieldsOf_unmatchedRight,
        fieldsOf_unmatchedLeft]
      rw [add_zero, add_right_comm]
      rfl

end Probe

end PostgressRs.Executor.HashJoin
