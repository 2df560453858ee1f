import Mathlib.Data.List.Dedup
import Mathlib.Data.List.TakeWhile
import PostgressRs.Executor.WindowValues

/-!
`RANK` and `DENSE_RANK` over columns: rows are compared without their columns' names, so
that all of them are peers.
-/

namespace PostgressRs.Executor.RankFunctions

open PostgressRs.Executor.Evaluation
open PostgressRs.Executor.RowOrder
open PostgressRs.Executor.WindowFunctions
open PostgressRs.Executor.WindowValues
open PostgressRs.Sql.Ast
open PostgressRs.Types

section Ranks

variable [Scalars] (desc : Option TupleDesc) (items : List (OrderByItem Expr))
  (rows : List (List String))

def isColumn : Expr → Bool
  | .identifier _ | .qualifiedIdentifier _ _ => true
  | _ => false

def isBefore (row other : List String) : Bool := compareRows desc other row items = .lt

/-- The rows strictly before a row. -/
def rowsBefore (row : List String) : Nat := rows.countP (isBefore desc items row)

/-- The values of the rows strictly before a row. -/
def valuesBefore (row : List String) : Nat :=
  ((rows.filter (isBefore desc items row)).map (orderValues desc items)).dedup.length

/-- Each row gets one more than a count of what stands before it, and rows get the same
number exactly if they have the same values. -/
def RanksBy (before : List String → Nat) (assigned : Nat → Option String) : Prop :=
  (∀ k row, rows[k]? = some row → assigned k = some (toString (1 + before row))) ∧
    ∀ k l row row', rows[k]? = some row → rows[l]? = some row' →
      (assigned k = assigned l ↔ orderValues desc items row = orderValues desc items row')

variable {desc items rows}

theorem rowsEqualOnOrderBy_columns (hcolumns : ∀ item ∈ items, isColumn item.expr)
    (a b : List String) : rowsEqualOnOrderBy items a b = true := by
  rw [rowsEqualOnOrderBy, List.all_eq_true]
  intro item hitem
  have hnone : ∀ row, evaluateExpr row none item.expr = none := by
    intro row
    have hcolumn := hcolumns item hitem
    cases hexpr : item.expr with
    | identifier col => rfl
    | qualifiedIdentifier table col => rfl
    | _ =>
        rw [hexpr] at hcolumn
        cases hcolumn
  rw [valueOr, valueOr, hnone, hnone]
  exact decide_eq_true rfl

/-- All rows are in one run. -/
theorem peers_columns (hcolumns : ∀ item ∈ items, isColumn item.expr) {row : List String}
    {rows : List (List String)} : peers items (row :: rows) = [rows.length + 1] := by
  have hall : ∀ other ∈ rows, rowsEqualOnOrderBy items row other = true :=
    fun other _ => rowsEqualOnOrderBy_columns hcolumns row other
  rw [peers, List.takeWhile_eq_self_iff.mpr hall, List.dropWhile_eq_nil_iff.mpr hall, peers]

theorem ranks_columns (hcolumns : ∀ item ∈ items, isColumn item.expr) (next : Nat → Nat → Nat)
    (rows : List (List String)) :
    ranks next 1 (peers items rows) = List.replicate rows.length "1" := by
  cases rows with
  | nil =>
      rw [peers]
      rfl
  | cons row rows =>
      rw [peers_columns hcolumns, ranks, ranks, List.append_nil]
      rfl

variable {colIdx : Nat} {name : String} {call : FunctionCall Expr} {spec : WindowSpec Expr}

theorem valuesInOrder_rank (hitems : spec.orderBy ≠ [])
    (hcolumns : ∀ item ∈ spec.orderBy, isColumn item.expr)
    (hname : name = "RANK" ∨ name = "DENSE_RANK") :
    valuesInOrder desc rows colIdx name call spec = some (List.replicate rows.length "1") := by
  have hspec : ¬(spec.orderBy.isEmpty = true ∧ spec.partitionBy.isEmpty = true) :=
    fun h => hitems (List.isEmpty_iff.mp h.1)
  have hlength : ((sortedIndexed desc spec.orderBy rows).map Prod.fst).length = rows.length := by
    rw [List.length_map, (perm_sortedIndexed _ _).length_eq, List.length_zipIdx]
  rw [valuesInOrder, if_neg hspec]
  rcases hname with rfl | rfl
  · rw [windowValues, ranks_columns hcolumns, hlength]
  · rw [windowValues, ranks_columns hcolumns, hlength]

theorem assignedValue_rank (hitems : spec.orderBy ≠ [])
    (hcolumns : ∀ item ∈ spec.orderBy, isColumn item.expr)
    (hname : name = "RANK" ∨ name = "DENSE_RANK") {k : Nat} {row : List String}
    (hrow : rows[k]? = some row) :
    assignedValue desc rows colIdx name call spec k = some "1" := by
  obtain ⟨i, hi, hk⟩ := exists_windowOrder desc spec (List.getElem?_eq_some_iff.mp hrow).1
  rw [assignedValue_eq (valuesInOrder_rank hitems hcolumns hname) hk,
    List.getElem?_replicate_of_lt hi]

theorem isBefore_of_eq {a b : List String}
    (h : orderValues desc items a = orderValues desc items b) :
    isBefore desc items a b = false := by
  rw [isBefore, compareRows_eq_iff.mpr h.symm]
  rfl

theorem rowsBefore_eq_zero {row : List String} :
    rowsBefore desc items rows row = 0 ↔ ∀ other ∈ rows, isBefore desc items row other = false := by
  rw [rowsBefore, List.countP_eq_zero]
  simp only [Bool.not_eq_true]

theorem valuesBefore_eq_zero {row : List String} :
    valuesBefore desc items rows row = 0 ↔
      ∀ other ∈ rows, isBefore desc items row other = false := by
  rw [valuesBefore, List.length_eq_zero_iff, List.dedup_eq_nil, List.map_eq_nil_iff,
    List.filter_eq_nil_iff]
  simp only [Bool.not_eq_true]

/-- Two rows of which none is before the other one have the same values. -/
theorem orderValues_eq_of_not_isBefore {a b : List String}
    (hab : isBefore desc items a b = false) (hba : isBefore desc items b a = false) :
    orderValues desc items a = orderValues desc items b := by
  have hcmp := transCmp_compareRows desc items
  have hb : compareRows desc b a items ≠ .lt := of_decide_eq_false hab
  have ha : compareRows desc a b items ≠ .lt := of_decide_eq_false hba
  apply compareRows_eq_iff.mp
  cases heq : compareRows desc a b items with
  | lt => exact absurd heq ha
  | eq => rfl
  | gt => exact absurd (hcmp.toOrientedCmp.lt_of_gt heq) hb

variable (desc rows colIdx) in
/-- The ranks are right exactly if all rows have the same values. -/
theorem ranks_iff (rankCall denseCall : FunctionCall Expr) (hitems : items ≠ [])
    (hcolumns : ∀ item ∈ items, isColumn item.expr) (frame : Option (FrameClause Expr)) :
    (RanksBy desc items rows (rowsBefore desc items rows)
        (assignedValue desc rows colIdx "RANK" rankCall ⟨[], items, frame⟩) ∧
      RanksBy desc items rows (valuesBefore desc items rows)
        (assignedValue desc rows colIdx "DENSE_RANK" denseCall ⟨[], items, frame⟩)) ↔
      ∀ a ∈ rows, ∀ b ∈ rows, orderValues desc items a = orderValues desc items b := by
  have hrank {name : String} (hname : name = "RANK" ∨ name = "DENSE_RANK")
      (call : FunctionCall Expr) {k : Nat} {row : List String} (hrow : rows[k]? = some row) :
      assignedValue desc rows colIdx name call ⟨[], items, frame⟩ k = some "1" :=
    assignedValue_rank hitems hcolumns hname hrow
  constructor
  · rintro ⟨⟨hvalue, -⟩, -⟩
    have hfirst : ∀ row ∈ rows, ∀ other ∈ rows, isBefore desc items row other = false := by
      intro row hrow
      obtain ⟨k, hk⟩ := List.mem_iff_getElem?.mp hrow
      have hone := (hrank (.inl rfl) rankCall hk).symm.trans (hvalue k row hk)
      have hzero := toString_injective (Option.some.inj hone : toString 1 = _)
      exact rowsBefore_eq_zero.mp (by omega)
    intro a ha b hb
    exact orderValues_eq_of_not_isBefore (hfirst a ha b hb) (hfirst b hb a ha)
  · intro hall
    have hranks {name : String} (hname : name = "RANK" ∨ name = "DENSE_RANK")
        (call : FunctionCall Expr) {before : List String → Nat}
        (hbefore : ∀ row ∈ rows, before row = 0) :
        RanksBy desc items rows before
          (assignedValue desc rows colIdx name call ⟨[], items, frame⟩) := by
      constructor
      · intro k row hrow
        rw [hrank hname call hrow, hbefore row (List.mem_of_getElem? hrow)]
        rfl
      · intro k l row row' hrow hrow'
        rw [hrank hname call hrow, hrank hname call hrow']
        exact iff_of_true rfl
          (hall row (List.mem_of_getElem? hrow) row' (List.mem_of_getElem? hrow'))
    have hnone : ∀ row ∈ rows, ∀ other ∈ rows, isBefore desc items row other = false :=
      fun row hrow other hother => isBefore_of_eq (hall row hrow other hother)
    exact ⟨hranks (.inl rfl) rankCall fun row hrow => rowsBefore_eq_zero.mpr (hnone row hrow),
      hranks (.inr rfl) denseCall fun row hrow => valuesBefore_eq_zero.mpr (hnone row hrow)⟩

end Ranks

section Rows

attribute [local instance] wholeNumbers

def scoreColumn : TupleDesc :=
  ⟨[{ name := "score", typeOid := ⟨25⟩, attnum := 0, typmod := -1 }]⟩

def byScore : List (OrderByItem Expr) := [⟨.identifier "score", .asc, .default⟩]

def rankCall (name : String) : FunctionCall Expr := ⟨.single name, [], none, none⟩

theorem ranks_iff_equal :
    RanksBy (some scoreColumn) byScore [["1"], ["1"]]
      (rowsBefore (some scoreColumn) byScore [["1"], ["1"]])
      (assignedValue (some scoreColumn) [["1"], ["1"]] 1 "RANK" (rankCall "RANK")
        ⟨[], byScore, none⟩) :=
  ((ranks_iff (some scoreColumn) [["1"], ["1"]] 1 (rankCall "RANK") (rankCall "DENSE_RANK")
    (by decide +kernel) (by decide +kernel) none).mpr (by decide +kernel)).1

/-- Of two rows with different values the second one has rank 1 as well. -/
theorem second_rank_eq_one :
    assignedValue (some scoreColumn) [["1"], ["2"]] 1 "RANK" (rankCall "RANK")
        ⟨[], byScore, none⟩ 1 = some "1" ∧
      1 + rowsBefore (some scoreColumn) byScore [["1"], ["2"]] ["2"] = 2 := by
  constructor
  · exact assignedValue_rank (by decide +kernel) (by decide +kernel) (.inl rfl) rfl
  · decide +kernel

end Rows

end PostgressRs.Executor.RankFunctions
