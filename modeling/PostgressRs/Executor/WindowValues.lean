import PostgressRs.Executor.RowOrder
import PostgressRs.Executor.WindowPlacement

/-!
The value that a window function assigns to each row (`compute_window_function` of
`src/executor/select/window.rs`).
-/

namespace PostgressRs.Executor.WindowValues

open PostgressRs.Executor.Evaluation
open PostgressRs.Executor.RowOrder
open PostgressRs.Executor.WindowFunctions
open PostgressRs.Executor.WindowPlacement
open PostgressRs.Lib.Comparisons
open PostgressRs.Sql.Ast
open PostgressRs.Types

section Values

variable [Scalars] (desc : Option TupleDesc)

def sortedIndexed (orderBy : List (OrderByItem Expr)) (rows : List (List String)) :
    List (List String × Nat) :=
  sortedRows desc Prod.fst orderBy rows.zipIdx

/-- The places of the rows in the order of the window. -/
def windowOrder (spec : WindowSpec Expr) (rows : List (List String)) : List Nat :=
  (sortedIndexed desc spec.orderBy rows).map Prod.snd

/-- The values in the order of the window. -/
def valuesInOrder (rows : List (List String)) (colIdx : Nat) (name : String)
    (call : FunctionCall Expr) (spec : WindowSpec Expr) : Option (List String) :=
  if spec.orderBy.isEmpty ∧ spec.partitionBy.isEmpty then simpleValues desc name call rows.length
  else
    windowValues desc name call colIdx spec.orderBy
      ((sortedIndexed desc spec.orderBy rows).map Prod.fst)

/-- What the function has written into a row. -/
def assignedValue (rows : List (List String)) (colIdx : Nat) (name : String)
    (call : FunctionCall Expr) (spec : WindowSpec Expr) (k : Nat) : Option String := do
  let row ← rows[k]?
  let row' ← (computeWindowFunction desc rows colIdx name call spec)[k]?
  row'[min colIdx row.length]?

variable {desc} {rows : List (List String)} {colIdx : Nat} {name : String}
  {call : FunctionCall Expr} {spec : WindowSpec Expr}

theorem perm_sortedIndexed (orderBy : List (OrderByItem Expr)) (rows : List (List String)) :
    (sortedIndexed desc orderBy rows).Perm rows.zipIdx :=
  List.mergeSort_perm _ _

theorem perm_windowOrder (spec : WindowSpec Expr) (rows : List (List String)) :
    (windowOrder desc spec rows).Perm (List.range rows.length) := by
  have hperm := (@perm_sortedIndexed _ desc spec.orderBy rows).map Prod.snd
  rwa [List.zipIdx_map_snd, ← List.range_eq_range'] at hperm

theorem nodup_windowOrder : (windowOrder desc spec rows).Nodup :=
  (perm_windowOrder spec rows).nodup_iff.mpr List.nodup_range

theorem length_windowOrder : (windowOrder desc spec rows).length = rows.length :=
  (perm_windowOrder spec rows).length_eq.trans List.length_range

theorem mem_windowOrder {k : Nat} : k ∈ windowOrder desc spec rows ↔ k < rows.length :=
  (perm_windowOrder spec rows).mem_iff.trans List.mem_range

/-- Without an order the rows stay as they come. -/
theorem windowOrder_of_isEmpty (h : spec.orderBy = []) :
    windowOrder desc spec rows = List.range rows.length := by
  have hsorted : sortedIndexed desc [] rows = rows.zipIdx := by
    rw [sortedIndexed, sortedRows_eq]
    exact sortBy_of_pairwise (List.pairwise_of_forall fun _ _ => nofun)
  rw [windowOrder, h, hsorted, List.zipIdx_map_snd, List.range_eq_range']

theorem length_valuesInOrder {vals : List String}
    (h : valuesInOrder desc rows colIdx name call spec = some vals) :
    vals.length = rows.length := by
  rw [valuesInOrder] at h
  split at h
  · rcases simpleValues_eq desc name call rows.length with ⟨vals', hvals, hlength, -⟩ | ⟨hvals, -⟩
    · rw [hvals] at h
      cases h
      exact hlength
    · rw [hvals] at h
      cases h
  · rcases windowValues_eq desc name call colIdx spec.orderBy
        ((sortedIndexed desc spec.orderBy rows).map Prod.fst) with
      ⟨vals', hvals, hlength, -⟩ | ⟨hvals, -⟩
    · rw [hvals] at h
      cases h
      rw [hlength, List.length_map, (perm_sortedIndexed _ _).length_eq, List.length_zipIdx]
    · rw [hvals] at h
      cases h

theorem computeWindowFunction_eq :
    computeWindowFunction desc rows colIdx name call spec =
      (valuesInOrder desc rows colIdx name call spec).elim rows fun vals =>
        placeAt colIdx rows ((windowOrder desc spec rows).zip vals) := by
  rw [computeWindowFunction, valuesInOrder]
  split
  · rename_i hempty
    rw [windowOrder_of_isEmpty (List.isEmpty_iff.mp hempty.1)]
    cases simpleValues desc name call rows.length <;> rfl
  · simp only [windowOrder, sortedIndexed]
    cases windowValues desc name call colIdx spec.orderBy
      ((sortedRows desc Prod.fst spec.orderBy rows.zipIdx).map Prod.fst) <;> rfl

omit [Scalars] in
theorem valueFor_zip {indices : List Nat} {vals : List String} (hnodup : indices.Nodup)
    (hlength : vals.length = indices.length) {i k : Nat} (hk : indices[i]? = some k) :
    valueFor (indices.zip vals) k = vals[i]? := by
  induction indices generalizing vals i with
  | nil => cases hk
  | cons first indices ih =>
      cases vals with
      | nil => cases hlength
      | cons val vals =>
          rw [List.nodup_cons] at hnodup
          rw [List.zip_cons_cons, valueFor, List.lookup_cons]
          cases i with
          | zero =>
              cases hk
              rw [beq_self_eq_true]
              rfl
          | succ i =>
              rw [List.getElem?_cons_succ] at hk
              have hne : k ≠ first := by
                rintro rfl
                exact hnodup.1 (List.mem_of_getElem? hk)
              rw [beq_false_of_ne hne]
              exact ih hnodup.2 (Nat.succ.inj hlength) hk

omit [Scalars] in
theorem getElem?_place (colIdx : Nat) (row : List String) (val : String) :
    (place colIdx row val)[min colIdx row.length]? = some val := by
  rw [place]
  split
  · rename_i hlt
    rw [min_eq_left hlt.le, List.getElem?_set_self hlt]
  · rename_i hle
    rw [min_eq_right (not_lt.mp hle), List.getElem?_concat_length]

/-- The row at a place of the window's order gets the value of that place. -/
theorem assignedValue_eq {vals : List String}
    (h : valuesInOrder desc rows colIdx name call spec = some vals) {i k : Nat}
    (hk : (windowOrder desc spec rows)[i]? = some k) :
    assignedValue desc rows colIdx name call spec k = vals[i]? := by
  have hlength : vals.length = (windowOrder desc spec rows).length :=
    (length_valuesInOrder h).trans length_windowOrder.symm
  have hnodup : (((windowOrder desc spec rows).zip vals).map Prod.fst).Nodup := by
    rw [List.map_fst_zip hlength.ge]
    exact nodup_windowOrder
  have hlt : k < rows.length := mem_windowOrder.mp (List.mem_of_getElem? hk)
  have hi : i < vals.length := by
    rw [hlength]
    exact (List.getElem?_eq_some_iff.mp hk).1
  rw [assignedValue, computeWindowFunction_eq, h, Option.elim_some, getElem?_placeAt hnodup,
    valueFor_zip nodup_windowOrder hlength hk, List.getElem?_eq_getElem hlt,
    List.getElem?_eq_getElem hi]
  exact getElem?_place colIdx rows[k] vals[i]

variable (desc spec) in
theorem exists_windowOrder {k : Nat} (hk : k < rows.length) :
    ∃ i < rows.length, (windowOrder desc spec rows)[i]? = some k := by
  have hmem : k ∈ windowOrder desc spec rows := mem_windowOrder.mpr hk
  obtain ⟨i, hi, heq⟩ := List.getElem_of_mem hmem
  have hlt : i < rows.length := by rwa [length_windowOrder] at hi
  exact ⟨i, hlt, List.getElem?_eq_some_iff.mpr ⟨hi, heq⟩⟩

variable (desc spec) in
theorem exists_row_at {i : Nat} (hi : i < rows.length) :
    ∃ k, (windowOrder desc spec rows)[i]? = some k := by
  rw [← Option.isSome_iff_exists, isSome_getElem?, length_windowOrder]
  exact hi

end Values

section Numbers

theorem toString_injective {m n : Nat} (h : toString m = toString n) : m = n := by
  have hdigits := congrArg (fun s => Nat.ofDigitChars 10 s.toList 0) h
  change Nat.ofDigitChars 10 m.repr.toList 0 = Nat.ofDigitChars 10 n.repr.toList 0 at hdigits
  rwa [Nat.toList_repr, Nat.toList_repr, Nat.ofDigitChars_ten_toDigits,
    Nat.ofDigitChars_ten_toDigits] at hdigits

variable [Scalars] {desc : Option TupleDesc} {rows : List (List String)} {colIdx : Nat}
  {call : FunctionCall Expr} {spec : WindowSpec Expr}

theorem valuesInOrder_rowNumber :
    valuesInOrder desc rows colIdx "ROW_NUMBER" call spec = some (numbered rows.length) := by
  rw [valuesInOrder]
  split
  · rfl
  · rw [windowValues, List.length_map, (perm_sortedIndexed _ _).length_eq, List.length_zipIdx]

omit [Scalars] in
theorem getElem?_numbered {count i : Nat} (hi : i < count) :
    (numbered count)[i]? = some (toString (i + 1)) := by
  rw [numbered, List.getElem?_map, List.getElem?_range hi, Option.map_some]

/-- Row numbers are the places in the order of the window. -/
theorem rowNumber_eq {i k : Nat} (hk : (windowOrder desc spec rows)[i]? = some k) :
    assignedValue desc rows colIdx "ROW_NUMBER" call spec k = some (toString (i + 1)) := by
  rw [assignedValue_eq valuesInOrder_rowNumber hk]
  apply getElem?_numbered
  have hi := (List.getElem?_eq_some_iff.mp hk).1
  rwa [length_windowOrder] at hi

end Numbers

end PostgressRs.Executor.WindowValues
