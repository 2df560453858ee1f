import Mathlib.Data.List.Sort
import Mathlib.Data.List.TakeWhile
import Mathlib.Data.String.Basic
import PostgressRs.Executor.Joins
import PostgressRs.Lib.ThetaJoin

/-!
The merge of two sorted sides is the relational join
(`src/executor/select/algorithms.rs`).
-/

namespace PostgressRs.Executor.MergeJoin

open PostgressRs.Executor.Evaluation
open PostgressRs.Executor.HeapAccess (Row)
open PostgressRs.Executor.Joins
open PostgressRs.Lib.ThetaJoin
open PostgressRs.Sql.Ast
open PostgressRs.Types

section Runs

/-- The rows of a key at the start of a side. -/
def runRows (key : String) (rows : List Keyed) : List Row :=
  (rows.takeWhile fun row => row.key = key).map Keyed.row

theorem runRows_cons {key : String} {row : Keyed} (rows : List Keyed) (h : row.key = key) :
    runRows key (row :: rows) = row.row :: runRows key rows := by
  have htake : (row :: rows).takeWhile (fun row => row.key = key) =
      row :: rows.takeWhile fun row => row.key = key :=
    List.takeWhile_cons_of_pos (decide_eq_true h)
  rw [runRows, htake]
  rfl

theorem runRows_cons_of_ne {key : String} {row : Keyed} (rows : List Keyed) (h : row.key ≠ key) :
    runRows key (row :: rows) = [] := by
  have htake : (row :: rows).takeWhile (fun row => row.key = key) = [] :=
    List.takeWhile_cons_of_neg (by simpa using h)
  rw [runRows, htake]
  rfl

theorem skipRun_cons {key : String} {row : Keyed} (rows : List Keyed) (h : row.key = key) :
    skipRun key (row :: rows) = skipRun key rows :=
  List.dropWhile_cons_of_pos (decide_eq_true h)

theorem matchRow_fst (key : String) (left : Keyed) (rights : List Keyed) :
    (matchRow key left rights).1 = (runRows key rights).map (combined left.row) := by
  induction rights with
  | nil => rfl
  | cons right rights ih =>
      rw [matchRow]
      split
      · rename_i heq
        rw [runRows_cons rights heq, List.map_cons, ← ih]
      · rename_i hne
        rw [runRows_cons_of_ne rights hne]
        rfl

/-- Marks do not change which rows are in the run. -/
theorem runRows_matchRow (key : String) (left : Keyed) (rights : List Keyed) :
    runRows key (matchRow key left rights).2 = runRows key rights := by
  induction rights with
  | nil => rfl
  | cons right rights ih =>
      rw [matchRow]
      split
      · rename_i heq
        rw [runRows_cons rights heq, ← ih]
        exact runRows_cons _ heq
      · rfl

theorem skipRun_matchRow (key : String) (left : Keyed) (rights : List Keyed) :
    skipRun key (matchRow key left rights).2 = skipRun key rights := by
  induction rights with
  | nil => rfl
  | cons right rights ih =>
      rw [matchRow]
      split
      · rename_i heq
        rw [skipRun_cons rights heq, ← ih]
        exact skipRun_cons _ heq
      · rfl

theorem matchRun_fst (key : String) (lefts rights : List Keyed) :
    (matchRun key lefts rights).1 =
      (runRows key lefts).flatMap fun left => (runRows key rights).map (combined left) := by
  induction lefts generalizing rights with
  | nil => rfl
  | cons left lefts ih =>
      rw [matchRun]
      split
      · rename_i heq
        rw [runRows_cons lefts heq, List.flatMap_cons, ← matchRow_fst,
          ← runRows_matchRow key left rights, ← ih]
      · rename_i hne
        rw [runRows_cons_of_ne lefts hne]
        rfl

theorem skipRun_matchRun (key : String) (lefts rights : List Keyed) :
    skipRun key (matchRun key lefts rights).2 = skipRun key rights := by
  induction lefts generalizing rights with
  | nil => rfl
  | cons left lefts ih =>
      rw [matchRun]
      split
      · exact (ih _).trans (skipRun_matchRow key left rights)
      · rfl

end Runs

section Sorted

/-- A sorted side of rows that were not matched yet. -/
structure Fresh (rows : List Keyed) : Prop where
  sorted : rows.Pairwise fun a b => a.key ≤ b.key
  unmatched : ∀ row ∈ rows, row.matched = false

variable {rows : List Keyed} {row : Keyed}

theorem Fresh.tail (h : Fresh (row :: rows)) : Fresh rows where
  sorted := h.sorted.of_cons
  unmatched row' hrow := h.unmatched row' (List.mem_cons_of_mem _ hrow)

theorem Fresh.key_le (h : Fresh (row :: rows)) {row' : Keyed} (hrow : row' ∈ row :: rows) :
    row.key ≤ row'.key := by
  rcases List.mem_cons.mp hrow with rfl | htail
  · exact le_rfl
  · exact List.rel_of_pairwise_cons h.sorted htail

theorem Fresh.skipRun (h : Fresh rows) (key : String) : Fresh (skipRun key rows) where
  sorted := h.sorted.sublist (List.dropWhile_sublist _)
  unmatched row hrow := h.unmatched row ((List.dropWhile_sublist _).subset hrow)

/-- Behind the run of the least key every key is greater. -/
theorem Fresh.lt_of_mem_skipRun (h : Fresh rows) {key : String}
    (hle : ∀ row ∈ rows, key ≤ row.key) {row : Keyed} (hrow : row ∈ Joins.skipRun key rows) :
    key < row.key := by
  induction rows with
  | nil => exact absurd hrow List.not_mem_nil
  | cons first rows ih =>
      by_cases heq : first.key = key
      · rw [skipRun_cons rows heq] at hrow
        exact ih h.tail (fun row hrow => hle row (List.mem_cons_of_mem _ hrow)) hrow
      · have hfirst : key < first.key :=
          lt_of_le_of_ne (hle first List.mem_cons_self) (Ne.symm heq)
        exact hfirst.trans_le (h.key_le ((List.dropWhile_sublist _).subset hrow))

theorem fresh_sortedByKey (h : ∀ row ∈ rows, row.matched = false) :
    Fresh (sortedByKey rows) := by
  constructor
  · have hsorted : (sortedByKey rows).Pairwise fun a b => decide (a.key ≤ b.key) = true := by
      apply List.pairwise_mergeSort
      · intro a b c hab hbc
        exact decide_eq_true ((of_decide_eq_true hab).trans (of_decide_eq_true hbc))
      · intro a b
        rw [Bool.or_eq_true, decide_eq_true_iff, decide_eq_true_iff]
        exact le_total a.key b.key
    exact hsorted.imp of_decide_eq_true
  · intro row hrow
    exact h row ((List.mergeSort_perm rows _).subset hrow)

end Sorted

section Sides

variable (joinType : JoinType) (leftCount rightCount : Nat)

/-- What a join of the type makes of two rows and of a row without a partner. -/
def rowsOuter : Outer (List String) (List String) (List String) where
  combine left right := left ++ right
  leftAlone := if keepsLeft joinType then some fun left => left ++ blanks rightCount else none
  rightAlone := if keepsRight joinType then some fun right => blanks leftCount ++ right else none

/-- The fields of a row with its key. -/
def Keyed.fields (row : Keyed) : List String := row.row.2

def keyedOuter : Outer Keyed Keyed (List String) :=
  (rowsOuter joinType leftCount rightCount).comap Keyed.fields Keyed.fields

def SameKey (left right : Keyed) : Prop := left.key = right.key

instance (left right : Keyed) : Decidable (SameKey left right) :=
  inferInstanceAs (Decidable (left.key = right.key))

/-- The join of two sides by their keys. -/
def keyedJoin (lefts rights : List Keyed) : Multiset (List String) :=
  (keyedOuter joinType leftCount rightCount).join SameKey (lefts : Multiset Keyed) rights

/-- The bag of the fields of rows. -/
def fieldsOf (rows : List Row) : Multiset (List String) := (rows.map Prod.snd : List (List String))

theorem fieldsOf_append (rows rows' : List Row) :
    fieldsOf (rows ++ rows') = fieldsOf rows + fieldsOf rows' := by
  rw [fieldsOf, List.map_append, ← Multiset.coe_add]
  rfl

theorem keyedOuter_leftAlone :
    (keyedOuter joinType leftCount rightCount).leftAlone =
      if keepsLeft joinType then some ((· ++ blanks rightCount) ∘ Keyed.fields) else none := by
  change Option.map _ (if keepsLeft joinType then some _ else none) = _
  split <;> rfl

theorem keyedOuter_rightAlone :
    (keyedOuter joinType leftCount rightCount).rightAlone =
      if keepsRight joinType then some ((blanks leftCount ++ ·) ∘ Keyed.fields) else none := by
  change Option.map _ (if keepsRight joinType then some _ else none) = _
  split <;> rfl

variable {joinType leftCount rightCount} {lefts rights : List Keyed}

theorem fieldsOf_passed {keeps : Bool} {padded : Row → Row} (f : List String → List String)
    (hpadded : ∀ row, (padded row).2 = f row.2) {rows : List Keyed}
    (h : ∀ row ∈ rows, row.matched = false) :
    fieldsOf (rows.flatMap (passed keeps padded)) =
      kept (if keeps then some (f ∘ Keyed.fields) else none) (rows : Multiset Keyed) := by
  have hrow : ∀ row ∈ rows, passed keeps padded row = if keeps then [padded row.row] else [] := by
    intro row hmem
    rw [passed, h row hmem]
    cases keeps <;> rfl
  cases keeps with
  | false =>
      have hnone : rows.flatMap (passed false padded) = [] := by
        apply List.flatMap_eq_nil_iff.mpr
        intro row hmem
        exact hrow row hmem
      rw [hnone]
      rfl
  | true =>
      have hall : rows.flatMap (passed true padded) = rows.map fun row => padded row.row := by
        rw [List.map_eq_flatMap]
        apply List.flatMap_congr
        intro row hmem
        exact hrow row hmem
      rw [hall, fieldsOf, List.map_map]
      change (↑(rows.map fun row => (padded row.row).2) : Multiset (List String)) =
        Multiset.map (f ∘ Keyed.fields) rows
      rw [Multiset.map_coe]
      congr 1
      apply List.map_congr_left
      intro row _
      exact hpadded row.row

theorem fieldsOf_leftsPassed (h : ∀ row ∈ lefts, row.matched = false) :
    fieldsOf (lefts.flatMap (passed (keepsLeft joinType) (paddedRight rightCount))) =
      keyedJoin joinType leftCount rightCount lefts [] := by
  rw [fieldsOf_passed (· ++ blanks rightCount) (fun _ => rfl) h,
    ← keyedOuter_leftAlone joinType leftCount]
  exact (Outer.join_zero_right _).symm

theorem fieldsOf_rightsPassed (h : ∀ row ∈ rights, row.matched = false) :
    fieldsOf (rights.flatMap (passed (keepsRight joinType) (paddedLeft leftCount))) =
      keyedJoin joinType leftCount rightCount [] rights := by
  rw [fieldsOf_passed (blanks leftCount ++ ·) (fun _ => rfl) h,
    ← keyedOuter_rightAlone joinType leftCount rightCount]
  exact (Outer.join_zero_left _).symm

theorem keyedJoin_append {lefts lefts' rights rights' : List Keyed}
    (h : ∀ a ∈ lefts, ∀ b ∈ rights', a.key ≠ b.key)
    (h' : ∀ a ∈ lefts', ∀ b ∈ rights, a.key ≠ b.key) :
    keyedJoin joinType leftCount rightCount (lefts ++ lefts') (rights ++ rights') =
      keyedJoin joinType leftCount rightCount lefts rights +
        keyedJoin joinType leftCount rightCount lefts' rights' := by
  rw [keyedJoin, ← Multiset.coe_add, ← Multiset.coe_add]
  apply Outer.join_add
  · exact h
  · exact h'

/-- Two runs of one key are joined pair by pair. -/
theorem keyedJoin_runs {key : String} (hlefts : lefts ≠ []) (hrights : rights ≠ [])
    (hleft : ∀ row ∈ lefts, row.key = key) (hright : ∀ row ∈ rights, row.key = key) :
    keyedJoin joinType leftCount rightCount lefts rights =
      fieldsOf ((lefts.map Keyed.row).flatMap fun left =>
        (rights.map Keyed.row).map (combined left)) := by
  have hcomplete : ∀ a ∈ (lefts : Multiset Keyed), ∀ b ∈ (rights : Multiset Keyed),
      SameKey a b := by
    intro a ha b hb
    exact (hleft a ha).trans (hright b hb).symm
  have hempty : ∀ {rows : List Keyed}, rows ≠ [] → (rows : Multiset Keyed) ≠ 0 :=
    fun h => mt (Multiset.coe_eq_zero _).mp h
  rw [keyedJoin, Outer.join_complete _ hcomplete (hempty hlefts) (hempty hrights)]
  simp only [Multiset.map_coe, Multiset.coe_bind]
  rw [fieldsOf, List.map_flatMap, List.flatMap_map]
  simp only [List.map_map]
  rfl

theorem runRows_eq_map (key : String) (rows : List Keyed) :
    ∃ run, rows = run ++ skipRun key rows ∧ runRows key rows = run.map Keyed.row ∧
      ∀ row ∈ run, row.key = key := by
  refine ⟨rows.takeWhile fun row => row.key = key, ?_, rfl, ?_⟩
  · exact List.takeWhile_append_dropWhile.symm
  · intro row hrow
    have hkey := List.mem_takeWhile_imp hrow
    exact of_decide_eq_true hkey

theorem mergeSides_run {left right : Keyed} (hleft : Fresh (left :: lefts))
    (hright : Fresh (right :: rights)) (hkey : left.key = right.key) :
    keyedJoin joinType leftCount rightCount (left :: lefts) (right :: rights) =
      fieldsOf (matchRun left.key (left :: lefts) (right :: rights)).1 +
        keyedJoin joinType leftCount rightCount (skipRun left.key lefts)
          (skipRun left.key rights) := by
  obtain ⟨run, hlefts, hrows, hrun⟩ := runRows_eq_map left.key lefts
  obtain ⟨run', hrights, hrows', hrun'⟩ := runRows_eq_map left.key rights
  have hlt : ∀ row ∈ skipRun left.key lefts, left.key < row.key := by
    intro row hrow
    apply hleft.tail.lt_of_mem_skipRun ?_ hrow
    intro row hrow
    exact hleft.key_le (List.mem_cons_of_mem _ hrow)
  have hlt' : ∀ row ∈ skipRun left.key rights, left.key < row.key := by
    intro row hrow
    apply hright.tail.lt_of_mem_skipRun ?_ hrow
    intro row hrow
    rw [hkey]
    exact hright.key_le (List.mem_cons_of_mem _ hrow)
  have hruns : ∀ row ∈ left :: run, row.key = left.key := by
    intro row hrow
    rcases List.mem_cons.mp hrow with rfl | hrow
    · rfl
    · exact hrun row hrow
  have hruns' : ∀ row ∈ right :: run', row.key = left.key := by
    intro row hrow
    rcases List.mem_cons.mp hrow with rfl | hrow
    · exact hkey.symm
    · exact hrun' row hrow
  have hsplit : keyedJoin joinType leftCount rightCount ((left :: run) ++ skipRun left.key lefts)
      ((right :: run') ++ skipRun left.key rights) =
        keyedJoin joinType leftCount rightCount (left :: run) (right :: run') +
          keyedJoin joinType leftCount rightCount (skipRun left.key lefts)
            (skipRun left.key rights) := by
    apply keyedJoin_append
    · intro a ha b hb
      rw [hruns a ha]
      exact (hlt' b hb).ne
    · intro a ha b hb
      rw [hruns' b hb]
      exact (hlt a ha).ne'
  rw [List.cons_append, List.cons_append, ← hlefts, ← hrights] at hsplit
  rw [hsplit, keyedJoin_runs (List.cons_ne_nil _ _) (List.cons_ne_nil _ _) hruns hruns',
    matchRun_fst, runRows_cons lefts rfl, runRows_cons rights hkey.symm, hrows, hrows']
  rfl

/-- The least row of all is passed without a partner. -/
theorem mergeSides_left {left : Keyed} (hleft : Fresh (left :: lefts))
    (hlt : ∀ row ∈ rights, left.key < row.key) :
    keyedJoin joinType leftCount rightCount (left :: lefts) rights =
      fieldsOf (passed (keepsLeft joinType) (paddedRight rightCount) left) +
        keyedJoin joinType leftCount rightCount lefts rights := by
  have hsplit : keyedJoin joinType leftCount rightCount ([left] ++ lefts) ([] ++ rights) =
      keyedJoin joinType leftCount rightCount [left] [] +
        keyedJoin joinType leftCount rightCount lefts rights := by
    apply keyedJoin_append
    · intro a ha b hb
      rw [List.mem_singleton.mp ha]
      exact (hlt b hb).ne
    · intro a _ b hb
      exact absurd hb List.not_mem_nil
  have hpassed : fieldsOf (passed (keepsLeft joinType) (paddedRight rightCount) left) =
      keyedJoin joinType leftCount rightCount [left] [] := by
    rw [← fieldsOf_leftsPassed]
    · rw [List.flatMap_singleton]
    · intro row hrow
      rw [List.mem_singleton.mp hrow]
      exact hleft.unmatched left List.mem_cons_self
  rw [hpassed]
  exact hsplit

theorem mergeSides_right {right : Keyed} (hright : Fresh (right :: rights))
    (hlt : ∀ row ∈ lefts, right.key < row.key) :
    keyedJoin joinType leftCount rightCount lefts (right :: rights) =
      fieldsOf (passed (keepsRight joinType) (paddedLeft leftCount) right) +
        keyedJoin joinType leftCount rightCount lefts rights := by
  have hsplit : keyedJoin joinType leftCount rightCount ([] ++ lefts) ([right] ++ rights) =
      keyedJoin joinType leftCount rightCount [] [right] +
        keyedJoin joinType leftCount rightCount lefts rights := by
    apply keyedJoin_append
    · intro a ha
      exact absurd ha List.not_mem_nil
    · intro a ha b hb
      rw [List.mem_singleton.mp hb]
      exact (hlt a ha).ne'
  have hpassed : fieldsOf (passed (keepsRight joinType) (paddedLeft leftCount) right) =
      keyedJoin joinType leftCount rightCount [] [right] := by
    rw [← fieldsOf_rightsPassed]
    · rw [List.flatMap_singleton]
    · intro row hrow
      rw [List.mem_singleton.mp hrow]
      exact hright.unmatched right List.mem_cons_self
  rw [hpassed]
  exact hsplit

theorem fieldsOf_mergeSides (hleft : Fresh lefts) (hright : Fresh rights) :
    fieldsOf (mergeSides joinType leftCount rightCount lefts rights) =
      keyedJoin joinType leftCount rightCount lefts rights := by
  induction lefts, rights using mergeLoop.induct joinType leftCount rightCount with
  | case1 rights =>
      rw [mergeSides, mergeLoop]
      exact fieldsOf_rightsPassed hright.unmatched
  | case2 left lefts =>
      rw [mergeSides, mergeLoop]
      change fieldsOf ((left :: lefts).flatMap _ ++ []) = _
      rw [List.append_nil]
      exact fieldsOf_leftsPassed hleft.unmatched
  | case3 left lefts right rights hkey _ _ _ ih =>
      rw [mergeSides_run hleft hright hkey]
      rw [skipRun_matchRun, skipRun_cons rights hkey.symm] at ih
      rw [← ih (hleft.tail.skipRun _) (hright.tail.skipRun _), ← fieldsOf_append, mergeSides,
        mergeLoop, if_pos hkey, skipRun_matchRun, skipRun_cons rights hkey.symm]
      simp only [mergeSides, List.append_assoc]
  | case4 left lefts right rights hne hlt _ _ _ ih =>
      have hlt' : ∀ row ∈ right :: rights, left.key < row.key :=
        fun row hrow => hlt.trans_le (hright.key_le hrow)
      rw [mergeSides_left hleft hlt', ← ih hleft.tail hright, ← fieldsOf_append, mergeSides,
        mergeLoop, if_neg hne, if_pos hlt]
      simp only [mergeSides, List.append_assoc]
  | case5 left lefts right rights hne hnlt _ _ _ ih =>
      have hlt : right.key < left.key := lt_of_le_of_ne (not_lt.mp hnlt) (Ne.symm hne)
      have hlt' : ∀ row ∈ left :: lefts, right.key < row.key :=
        fun row hrow => hlt.trans_le (hleft.key_le hrow)
      rw [mergeSides_right hright hlt', ← ih hleft hright.tail, ← fieldsOf_append, mergeSides,
        mergeLoop, if_neg hne, if_neg hnlt]
      simp only [mergeSides, List.append_assoc]

end Sides

section Rows

variable [Scalars] (desc : Option TupleDesc) (l r : Expr)

/-- The keys of two rows are equal, where a missing value counts as the empty string. -/
def KeysEqual (left right : List String) : Prop :=
  (evaluateExpr left desc l).getD "" = (evaluateExpr right desc r).getD ""

instance (left right : List String) : Decidable (KeysEqual desc l r left right) :=
  inferInstanceAs (Decidable (_ = _))

variable {desc l r} {left right : List Row} {joinType : JoinType} {op : BinaryOperator}

theorem keyedJoin_withKeys (leftCount rightCount : Nat) :
    keyedJoin joinType leftCount rightCount
        (sortedByKey (left.map (leftWithKey desc (.binaryOp l op r))))
        (sortedByKey (right.map (rightWithKey desc (.binaryOp l op r)))) =
      (rowsOuter joinType leftCount rightCount).join (KeysEqual desc l r) (fieldsOf left)
        (fieldsOf right) := by
  have hsorted (rows : List Keyed) : (sortedByKey rows : Multiset Keyed) = rows :=
    Multiset.coe_eq_coe.mpr (List.mergeSort_perm rows _)
  rw [keyedJoin, hsorted, hsorted, ← Multiset.map_coe, ← Multiset.map_coe, Outer.join_map,
    keyedOuter, Outer.comap_comap, fieldsOf, fieldsOf, ← Multiset.map_coe, ← Multiset.map_coe,
    Outer.join_map]
  rfl

/-- The padding of a side without rows is as wide as the first row of the other says. -/
theorem fieldsOf_mergeJoin :
    fieldsOf (mergeJoin desc left right (.binaryOp l op r) joinType) =
      (rowsOuter joinType (firstWidth left) (rightColCount left right)).join
        (KeysEqual desc l r) (fieldsOf left) (fieldsOf right) := by
  have hmap (f : Row → Row) (g : List String → List String) (h : ∀ row, (f row).2 = g row.2)
      (rows : List Row) : fieldsOf (rows.map f) = (fieldsOf rows).map g := by
    rw [fieldsOf, fieldsOf, Multiset.map_coe, List.map_map, List.map_map]
    congr 1
    apply List.map_congr_left
    intro row _
    exact h row
  unfold mergeJoin
  split
  · rename_i hempty
    rcases hempty with hleft | hright
    · rw [List.isEmpty_iff.mp hleft]
      change fieldsOf _ = Outer.join _ _ 0 _
      rw [Outer.join_zero_left]
      cases joinType with
      | inner | left | cross | lateral => rfl
      | right => exact hmap _ _ (fun _ => rfl) right
      | full => exact hmap _ _ (fun _ => rfl) right
    · rw [List.isEmpty_iff.mp hright]
      change fieldsOf _ = Outer.join _ _ _ 0
      rw [Outer.join_zero_right]
      cases joinType with
      | inner | right | cross | lateral => rfl
      | left => exact hmap _ _ (fun _ => rfl) left
      | full =>
          have hrows := hmap (paddedRight (rightColCount left []))
            (· ++ blanks (rightColCount left [])) (fun _ => rfl) left
          rw [← List.append_nil (left.map _)] at hrows
          exact hrows
  · rw [fieldsOf_mergeSides, keyedJoin_withKeys]
    · apply fresh_sortedByKey
      intro row hrow
      obtain ⟨row', -, rfl⟩ := List.mem_map.mp hrow
      rfl
    · apply fresh_sortedByKey
      intro row hrow
      obtain ⟨row', -, rfl⟩ := List.mem_map.mp hrow
      rfl

omit [Scalars] in
theorem firstWidth_eq {width : Nat} (hne : left ≠ [])
    (h : ∀ row ∈ left, row.2.length = width) : firstWidth left = width := by
  cases left with
  | nil => exact absurd rfl hne
  | cons row rows => exact h row List.mem_cons_self

theorem mergeJoin_relational (leftWidth rightWidth : Nat) (hleft : left ≠ [])
    (hright : right ≠ [])
    (hleftWidth : ∀ row ∈ left, row.2.length = leftWidth)
    (hrightWidth : ∀ row ∈ right, row.2.length = rightWidth) :
    fieldsOf (mergeJoin desc left right (.binaryOp l .equals r) joinType) =
      (joined (KeysEqual desc l r) (fieldsOf left) (fieldsOf right)).map
          (fun pair => pair.1 ++ pair.2) +
        (if keepsLeft joinType then
          (alone (KeysEqual desc l r) (fieldsOf left) (fieldsOf right)).map
            (· ++ blanks rightWidth) else 0) +
        (if keepsRight joinType then
          (alone (fun row row' => KeysEqual desc l r row' row) (fieldsOf right)
            (fieldsOf left)).map (blanks leftWidth ++ ·) else 0) := by
  have hcount : rightColCount left right = rightWidth := by
    rw [rightColCount, List.isEmpty_eq_false_iff.mpr hright]
    exact firstWidth_eq hright hrightWidth
  rw [fieldsOf_mergeJoin, firstWidth_eq hleft hleftWidth, hcount, Outer.join]
  congr 1
  · congr 1
    change kept (if keepsLeft joinType then _ else none) _ = _
    split <;> rfl
  · change kept (if keepsRight joinType then _ else none) _ = _
    split <;> rfl

end Rows

section Example

attribute [local instance] wholeNumbers

def idColumn : TupleDesc :=
  ⟨[{ name := "id", typeOid := ⟨23⟩, attnum := 0, typmod := -1 }]⟩

/-- Two runs of one key, and a row without a partner on each side. -/
theorem mergeJoin_relational_runs :
    (fieldsOf (mergeJoin (some idColumn)
      [(⟨⟨0⟩, 0⟩, ["1", "a"]), (⟨⟨0⟩, 1⟩, ["2", "b"]), (⟨⟨0⟩, 2⟩, ["1", "c"])]
      [(⟨⟨1⟩, 0⟩, ["1"]), (⟨⟨1⟩, 1⟩, ["3"]), (⟨⟨1⟩, 2⟩, ["1"])]
      (.binaryOp (.identifier "id") .equals (.identifier "id")) .full)).card = 6 := by
  rw [mergeJoin_relational 2 1]
  · decide +kernel
  all_goals decide

end Example

end PostgressRs.Executor.MergeJoin
