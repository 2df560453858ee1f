import Mathlib.Data.Finset.Basic
import Mathlib.Data.Finset.Lattice.Lemmas
import Mathlib.Data.List.Count
import PostgressRs.Executor.SetOperations

/-!
The loops of set operations over their counts and their set of seen rows
(`src/executor/select/set_ops.rs`), and how often each row is in their result.
-/

namespace PostgressRs.Executor.BagOperations

open PostgressRs.Server.Queries (SelectResult)
open PostgressRs.Sql.Ast
open PostgressRs.Executor.SetOperations (Row distinct insertNew)

section Loops

/-- How many more of a row are left, for the rows that have an entry. -/
abbrev Counts : Type := Row → Option Nat

def addCount (counts : Counts) (row : Row) : Counts :=
  Function.update counts row (some ((counts row).getD 0 + 1))

def countRows (rows : List Row) : Counts :=
  rows.foldl addCount fun _ => none

/-- The loop of `INTERSECT ALL`. -/
def takeCounted : Counts → List Row → List Row
  | _, [] => []
  | counts, row :: rows =>
      match counts row with
      | some (count + 1) => row :: takeCounted (Function.update counts row (some count)) rows
      | some 0 | none => takeCounted counts rows

/-- The loop of `EXCEPT ALL`. -/
def skipCounted : Counts → List Row → List Row
  | _, [] => []
  | counts, row :: rows =>
      match counts row with
      | some (count + 1) => skipCounted (Function.update counts row (some count)) rows
      | some 0 | none => row :: skipCounted counts rows

/-- The rows that were not in the set before, and the set with all of them. -/
def retainNew : Finset Row → List Row → List Row × Finset Row
  | seen, [] => ([], seen)
  | seen, row :: rows =>
      if row ∈ seen then retainNew seen rows
      else
        let (kept, seen) := retainNew (insert row seen) rows
        (row :: kept, seen)

def unionRows (left right : List Row) : List Row :=
  let (kept, seen) := retainNew ∅ left
  kept ++ (retainNew seen right).1

def applySetOperation (left right : SelectResult) (operator : SetOperator) : SelectResult where
  columns := left.columns
  rows :=
    match operator with
    | .union => unionRows left.rows right.rows
    | .unionAll => left.rows ++ right.rows
    | .intersect => left.rows.filter (· ∈ right.rows.toFinset)
    | .intersectAll => takeCounted (countRows right.rows) left.rows
    | .except => left.rows.filter (· ∉ right.rows.toFinset)
    | .exceptAll => skipCounted (countRows right.rows) left.rows

end Loops

section Counts

/-- The counts of the rows of a list. -/
def Counting (counts : Counts) (rows : List Row) : Prop :=
  ∀ row, (counts row).getD 0 = rows.count row

theorem Counting.addCount {counts : Counts} {rows : List Row} (h : Counting counts rows)
    (row : Row) : Counting (addCount counts row) (rows ++ [row]) := by
  intro row'
  rw [BagOperations.addCount, List.count_append]
  rcases eq_or_ne row' row with rfl | hne
  · rw [Function.update_self, Option.getD_some, h, List.count_singleton_self]
  · rw [Function.update_of_ne hne, h, List.count_singleton, beq_false_of_ne hne.symm]
    rfl

theorem counting_foldl {counts : Counts} {before : List Row} (h : Counting counts before)
    (rows : List Row) : Counting (rows.foldl BagOperations.addCount counts) (before ++ rows) := by
  induction rows generalizing counts before with
  | nil => rwa [List.append_nil]
  | cons row rows ih =>
      rw [List.append_cons]
      exact ih (h.addCount row)

theorem counting_countRows (rows : List Row) : Counting (countRows rows) rows :=
  @counting_foldl _ [] (fun _ => rfl) rows

/-- A counter never passes the length of the list. -/
theorem countRows_le (rows : List Row) (row : Row) :
    ((countRows rows) row).getD 0 ≤ rows.length := by
  rw [counting_countRows rows row]
  exact List.count_le_length

theorem Counting.erase {counts : Counts} {rows : List Row} (h : Counting counts rows)
    {row : Row} {count : Nat} (hrow : counts row = some (count + 1)) :
    Counting (Function.update counts row (some count)) (rows.erase row) := by
  intro row'
  have hcount := h row
  rw [hrow, Option.getD_some] at hcount
  rcases eq_or_ne row' row with rfl | hne
  · rw [Function.update_self, Option.getD_some, List.count_erase_self]
    omega
  · rw [Function.update_of_ne hne, h, List.count_erase_of_ne hne]

theorem Counting.mem {counts : Counts} {rows : List Row} (h : Counting counts rows)
    {row : Row} {count : Nat} (hrow : counts row = some (count + 1)) : row ∈ rows := by
  have hcount := h row
  rw [hrow, Option.getD_some] at hcount
  exact List.count_pos_iff.mp (by omega)

theorem Counting.notMem {counts : Counts} {rows : List Row} (h : Counting counts rows)
    {row : Row} (hrow : (counts row).getD 0 = 0) : row ∉ rows :=
  List.count_eq_zero.mp ((h row).symm.trans hrow)

theorem takeCounted_eq {counts : Counts} {counted : List Row} (h : Counting counts counted)
    (rows : List Row) :
    takeCounted counts rows = SetOperations.intersectAll counted rows := by
  induction rows generalizing counts counted with
  | nil => rfl
  | cons row rows ih =>
      rw [takeCounted, SetOperations.intersectAll]
      split
      · rename_i count hrow
        rw [if_pos (h.mem hrow), ih (h.erase hrow)]
      · rename_i hrow
        rw [if_neg (h.notMem (by rw [hrow]; rfl)), ih h]
      · rename_i hrow
        rw [if_neg (h.notMem (by rw [hrow]; rfl)), ih h]

theorem skipCounted_eq {counts : Counts} {counted : List Row} (h : Counting counts counted)
    (rows : List Row) :
    skipCounted counts rows = SetOperations.exceptAll counted rows := by
  induction rows generalizing counts counted with
  | nil => rfl
  | cons row rows ih =>
      rw [skipCounted, SetOperations.exceptAll]
      split
      · rename_i count hrow
        rw [if_pos (h.mem hrow), ih (h.erase hrow)]
      · rename_i hrow
        rw [if_neg (h.notMem (by rw [hrow]; rfl)), ih h]
      · rename_i hrow
        rw [if_neg (h.notMem (by rw [hrow]; rfl)), ih h]

end Counts

section Seen

theorem retainNew_snd (seen : Finset Row) (rows : List Row) :
    (retainNew seen rows).2 = seen ∪ rows.toFinset := by
  induction rows generalizing seen with
  | nil => rw [retainNew, List.toFinset_nil, Finset.union_empty]
  | cons row rows ih =>
      rw [retainNew, List.toFinset_cons, Finset.union_insert]
      split
      · rename_i hmem
        rw [ih, Finset.insert_eq_of_mem (Finset.mem_union_left _ hmem)]
      · change (retainNew (insert row seen) rows).2 = _
        rw [ih, Finset.insert_union]

/-- The rows kept after those seen are the rows that the list of them grows by. -/
theorem append_retainNew (before rows : List Row) :
    before ++ (retainNew before.toFinset rows).1 = rows.foldl insertNew before := by
  induction rows generalizing before with
  | nil => exact List.append_nil before
  | cons row rows ih =>
      rw [retainNew, List.foldl_cons, insertNew]
      by_cases hmem : row ∈ before
      · rw [if_pos (List.mem_toFinset.mpr hmem), if_pos hmem, ih]
      · rw [if_neg (mt List.mem_toFinset.mp hmem), if_neg hmem, ← ih,
          List.toFinset_append, List.toFinset_cons, List.toFinset_nil,
          Finset.union_comm, LawfulSingleton.insert_empty_eq, ← Finset.insert_eq]
        exact List.append_cons before row _

theorem unionRows_eq (left right : List Row) :
    unionRows left right = right.foldl insertNew (distinct left) := by
  have hleft : (retainNew ∅ left).1 = distinct left := append_retainNew [] left
  have hseen : (retainNew ∅ left).2 = (distinct left).toFinset := by
    rw [retainNew_snd, Finset.empty_union]
    ext row
    rw [List.mem_toFinset, List.mem_toFinset, distinct, SetOperations.mem_foldl_insertNew]
    exact (or_iff_right List.not_mem_nil).symm
  change (retainNew ∅ left).1 ++ (retainNew (retainNew ∅ left).2 right).1 = _
  rw [hleft, hseen, append_retainNew]

theorem applySetOperation_eq (left right : SelectResult) (operator : SetOperator) :
    applySetOperation left right operator =
      SetOperations.applySetOperation left right operator := by
  apply congrArg (SelectResult.mk left.columns)
  cases operator with
  | union => exact unionRows_eq left.rows right.rows
  | unionAll => rfl
  | intersect =>
      apply List.filter_congr
      intro row _
      exact decide_eq_decide.mpr List.mem_toFinset
  | intersectAll => exact takeCounted_eq (counting_countRows right.rows) left.rows
  | except =>
      apply List.filter_congr
      intro row _
      exact decide_eq_decide.mpr (not_congr List.mem_toFinset)
  | exceptAll => exact skipCounted_eq (counting_countRows right.rows) left.rows

end Seen

section Multiplicities

open SetOperations

variable (left right : SelectResult) (row : Row)

theorem count_erase_of_mem {counted : List Row} {row' : Row} (h : row' ∈ counted) :
    (counted.erase row').count row + (if row' = row then 1 else 0) = counted.count row := by
  rcases eq_or_ne row' row with rfl | hne
  · have hpos : 0 < counted.count row' := List.count_pos_iff.mpr h
    rw [if_pos rfl, List.count_erase_self]
    omega
  · rw [if_neg hne, List.count_erase_of_ne hne.symm]
    rfl

theorem count_intersectAll (counted rows : List Row) :
    (intersectAll counted rows).count row = min (rows.count row) (counted.count row) := by
  induction rows generalizing counted with
  | nil => exact (Nat.zero_min _).symm
  | cons row' rows ih =>
      rw [intersectAll, List.count_cons]
      simp only [beq_iff_eq]
      by_cases hmem : row' ∈ counted
      · have herase := count_erase_of_mem row hmem
        rw [if_pos hmem, List.count_cons, ih]
        simp only [beq_iff_eq]
        omega
      · rw [if_neg hmem, ih]
        split
        · rename_i heq
          subst heq
          rw [List.count_eq_zero.mpr hmem, Nat.min_zero, Nat.min_zero]
        · rfl

/-- Each row of a list is in one of the two results. -/
theorem count_intersectAll_add (counted rows : List Row) :
    (intersectAll counted rows).count row + (exceptAll counted rows).count row =
      rows.count row := by
  induction rows generalizing counted with
  | nil => rfl
  | cons row' rows ih =>
      rw [intersectAll, exceptAll, List.count_cons]
      split
      · rw [List.count_cons, ← ih (counted.erase row')]
        omega
      · rw [List.count_cons, ← ih counted]
        omega

theorem count_exceptAll (counted rows : List Row) :
    (exceptAll counted rows).count row = rows.count row - counted.count row := by
  have hboth := count_intersectAll_add row counted rows
  rw [count_intersectAll] at hboth
  omega

theorem count_distinct_append (first second : List Row) :
    (second.foldl insertNew (distinct first)).count row =
      if row ∈ first ∨ row ∈ second then 1 else 0 := by
  have hnodup : (second.foldl insertNew (distinct first)).Nodup :=
    nodup_foldl_insertNew (nodup_foldl_insertNew List.nodup_nil)
  rw [hnodup.count]
  congr 1
  rw [mem_foldl_insertNew, distinct, mem_foldl_insertNew, or_iff_right List.not_mem_nil]

/-- A filter keeps every repetition of the rows it keeps. -/
theorem filter_once_iff (p : Row → Prop) [DecidablePred p] (rows : List Row) :
    (∀ row, (rows.filter (p ·)).count row = if row ∈ rows ∧ p row then 1 else 0) ↔
      ∀ row ∈ rows, p row → rows.count row = 1 := by
  constructor
  · intro h row hmem hp
    have hkept : (rows.filter (p ·)).count row = rows.count row :=
      List.count_filter (decide_eq_true hp)
    rw [← hkept, h row, if_pos ⟨hmem, hp⟩]
  · intro h row
    split
    · rename_i hrow
      have hkept : (rows.filter (p ·)).count row = rows.count row :=
        List.count_filter (decide_eq_true hrow.2)
      rw [hkept]
      exact h row hrow.1 hrow.2
    · rename_i hrow
      apply List.count_eq_zero.mpr
      intro hmem
      rw [List.mem_filter, decide_eq_true_iff] at hmem
      exact hrow hmem

/-- Without `ALL` the rows of the left side are still not made distinct. -/
theorem selects_once_iff :
    ((∀ row, (applySetOperation left right .intersect).rows.count row =
        if row ∈ left.rows ∧ row ∈ right.rows then 1 else 0) ↔
      ∀ row ∈ left.rows, row ∈ right.rows → left.rows.count row = 1) ∧
    ((∀ row, (applySetOperation left right .except).rows.count row =
        if row ∈ left.rows ∧ row ∉ right.rows then 1 else 0) ↔
      ∀ row ∈ left.rows, row ∉ right.rows → left.rows.count row = 1) := by
  simp only [applySetOperation_eq]
  constructor
  · exact filter_once_iff (· ∈ right.rows) left.rows
  · exact filter_once_iff (· ∉ right.rows) left.rows

theorem intersect_repeats_row :
    (applySetOperation ⟨["a"], [["1"], ["1"]]⟩ ⟨["a"], [["1"]]⟩ .intersect).rows =
        [["1"], ["1"]] ∧
      (applySetOperation ⟨["a"], [["1"], ["1"]]⟩ ⟨["a"], []⟩ .except).rows =
        [["1"], ["1"]] ∧
      ¬ ∀ (left right : SelectResult) (row : Row),
        (applySetOperation left right .intersect).rows.count row =
          if row ∈ left.rows ∧ row ∈ right.rows then 1 else 0 := by
  refine ⟨by decide, by decide, ?_⟩
  intro hall
  have hcount := hall ⟨["a"], [["1"], ["1"]]⟩ ⟨["a"], [["1"]]⟩ ["1"]
  revert hcount
  decide

end Multiplicities

end PostgressRs.Executor.BagOperations
