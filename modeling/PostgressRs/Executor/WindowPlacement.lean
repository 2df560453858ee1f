import Mathlib.Data.List.Nodup
import Mathlib.Data.List.Sort
import PostgressRs.Executor.WindowFunctions

/-!
What window functions leave of the rows (`src/executor/select/window.rs`).
-/

namespace PostgressRs.Executor.WindowPlacement

open PostgressRs.Executor.Evaluation
open PostgressRs.Executor.WindowFunctions
open PostgressRs.Sql.Ast
open PostgressRs.Types

section Placement

variable {colIdx : Nat} {rows : List (List String)}

/-- The value for the row at a place, if there is one. -/
def valueFor (vals : List (Nat × String)) (k : Nat) : Option String := vals.lookup k

def placed (colIdx : Nat) (row : List String) (val : Option String) : List String :=
  match val with
  | some val => place colIdx row val
  | none => row

theorem getElem?_placeAt {vals : List (Nat × String)} (hnodup : (vals.map Prod.fst).Nodup)
    (k : Nat) :
    (placeAt colIdx rows vals)[k]? =
      rows[k]?.map fun row => placed colIdx row (valueFor vals k) := by
  induction vals generalizing rows with
  | nil => exact Option.map_id'.symm
  | cons first vals ih =>
      obtain ⟨i, val⟩ := first
      rw [List.map_cons, List.nodup_cons] at hnodup
      rw [placeAt, ih hnodup.2, List.getElem?_modify, valueFor, valueFor, List.lookup_cons]
      rcases eq_or_ne i k with rfl | hne
      · have hnone : vals.lookup i = none := by
          apply List.lookup_eq_none_iff.mpr
          intro pair hpair
          rw [bne_iff_ne]
          rintro rfl
          exact hnodup.1 (List.mem_map.mpr ⟨pair, hpair, rfl⟩)
        rw [hnone, beq_self_eq_true]
        cases rows[i]? with
        | none => rfl
        | some row => simp only [if_true, Option.map_eq_map, Option.map_some, placed]
      · rw [beq_false_of_ne hne.symm]
        cases rows[k]? with
        | none => rfl
        | some row => simp only [if_neg hne, Option.map_eq_map, Option.map_some]

theorem valueFor_isSome {indices : List Nat} {vals : List String}
    (hlength : vals.length = indices.length) {k : Nat} (hk : k ∈ indices) :
    (valueFor (indices.zip vals) k).isSome := by
  induction indices generalizing vals with
  | nil => exact absurd hk List.not_mem_nil
  | cons i indices ih =>
      cases vals with
      | nil => cases hlength
      | cons val vals =>
          rw [List.zip_cons_cons, valueFor, List.lookup_cons]
          rcases eq_or_ne k i with rfl | hne
          · rw [beq_self_eq_true]
            rfl
          · rw [beq_false_of_ne hne]
            exact ih (Nat.succ.inj hlength) ((List.mem_cons.mp hk).resolve_left hne)

end Placement

section Values

variable [Scalars] (desc : Option TupleDesc)

def simpleNames : List String := ["ROW_NUMBER", "RANK", "DENSE_RANK", "NTILE"]

def windowNames : List String :=
  simpleNames ++ ["LAG", "LEAD", "FIRST_VALUE", "LAST_VALUE", "NTH_VALUE"]

/-- Whether a call over a window gives every row a value. -/
def givesValues (call : FunctionCall Expr) (spec : WindowSpec Expr) : Bool :=
  functionName call ∈
    if spec.orderBy.isEmpty ∧ spec.partitionBy.isEmpty then simpleNames else windowNames

omit [Scalars] in
theorem length_numbered (count : Nat) : (numbered count).length = count := by
  rw [numbered, List.length_map, List.length_range]

theorem length_ntile (call : FunctionCall Expr) (count : Nat) :
    (ntile desc call count).length = count := by
  rw [ntile, List.length_map, List.length_range]

omit [Scalars] in
theorem length_ranks (next : Nat → Nat → Nat) (rank : Nat) (counts : List Nat) :
    (ranks next rank counts).length = counts.sum := by
  induction counts generalizing rank with
  | nil => rfl
  | cons count counts ih =>
      rw [ranks, List.length_append, List.length_replicate, ih, List.sum_cons]

theorem sum_peers (orderBy : List (OrderByItem Expr)) (rows : List (List String)) :
    (peers orderBy rows).sum = rows.length := by
  induction rows using peers.induct orderBy with
  | case1 => rw [peers]; rfl
  | case2 row rows ih =>
      have hsplit := congrArg List.length
        (@List.takeWhile_append_dropWhile _ (rowsEqualOnOrderBy orderBy row) rows)
      rw [List.length_append] at hsplit
      rw [peers, List.sum_cons, ih, List.length_cons]
      omega

theorem simpleValues_eq (name : String) (call : FunctionCall Expr) (count : Nat) :
    (∃ vals, simpleValues desc name call count = some vals ∧ vals.length = count ∧
        name ∈ simpleNames) ∨
      simpleValues desc name call count = none ∧ name ∉ simpleNames := by
  unfold simpleValues
  split
  · exact .inl ⟨_, rfl, length_numbered count, by decide⟩
  · exact .inl ⟨_, rfl, length_numbered count, by decide⟩
  · exact .inl ⟨_, rfl, length_numbered count, by decide⟩
  · exact .inl ⟨_, rfl, length_ntile desc call count, by decide⟩
  · rename_i h₁ h₂ h₃ h₄
    refine .inr ⟨rfl, ?_⟩
    simp only [simpleNames, List.mem_cons, List.not_mem_nil, or_false, not_or]
    exact ⟨h₁, h₂, h₃, h₄⟩

theorem windowValues_eq (name : String) (call : FunctionCall Expr) (colIdx : Nat)
    (orderBy : List (OrderByItem Expr)) (rows : List (List String)) :
    (∃ vals, windowValues desc name call colIdx orderBy rows = some vals ∧
        vals.length = rows.length ∧ name ∈ windowNames) ∨
      windowValues desc name call colIdx orderBy rows = none ∧ name ∉ windowNames := by
  unfold windowValues
  split
  · exact .inl ⟨_, rfl, length_numbered _, by decide⟩
  · exact .inl ⟨_, rfl, (length_ranks _ _ _).trans (sum_peers orderBy rows), by decide⟩
  · exact .inl ⟨_, rfl, (length_ranks _ _ _).trans (sum_peers orderBy rows), by decide⟩
  · exact .inl ⟨_, rfl, length_ntile desc call _, by decide⟩
  · exact .inl ⟨_, rfl, by rw [lag, List.length_map, List.length_range], by decide⟩
  · exact .inl ⟨_, rfl, by rw [lead, List.length_map, List.length_range], by decide⟩
  · exact .inl ⟨_, rfl, List.length_replicate, by decide⟩
  · exact .inl ⟨_, rfl, List.length_replicate, by decide⟩
  · exact .inl ⟨_, rfl, List.length_replicate, by decide⟩
  · rename_i h₁ h₂ h₃ h₄ h₅ h₆ h₇ h₈ h₉
    refine .inr ⟨rfl, ?_⟩
    simp only [windowNames, simpleNames, List.cons_append, List.nil_append, List.mem_cons,
      List.not_mem_nil, or_false, not_or]
    exact ⟨h₁, h₂, h₃, h₄, h₅, h₆, h₇, h₈, h₉⟩

end Values

section Windows

variable [Scalars] (desc : Option TupleDesc)

/-- Every row gets a value if the call gives any, and no row changes otherwise. -/
theorem getElem?_computeWindowFunction (rows : List (List String)) (colIdx : Nat)
    (call : FunctionCall Expr) (spec : WindowSpec Expr) :
    ∃ value : Nat → Option String,
      (∀ k < rows.length, (value k).isSome = givesValues call spec) ∧
        ∀ k, (computeWindowFunction desc rows colIdx (functionName call) call spec)[k]? =
          rows[k]?.map fun row => placed colIdx row (value k) := by
  rw [computeWindowFunction, givesValues]
  split
  · rcases simpleValues_eq desc (functionName call) call rows.length with
      ⟨vals, hvals, hlength, hname⟩ | ⟨hvals, hname⟩
    · refine ⟨valueFor ((List.range rows.length).zip vals), ?_, ?_⟩
      · intro k hk
        rw [decide_eq_true hname]
        exact valueFor_isSome (by rw [hlength, List.length_range]) (List.mem_range.mpr hk)
      · intro k
        rw [hvals]
        apply getElem?_placeAt
        rw [List.map_fst_zip (by rw [hlength, List.length_range])]
        exact List.nodup_range
    · refine ⟨fun _ => none, ?_, ?_⟩
      · intro k _
        rw [decide_eq_false hname]
        rfl
      · intro k
        rw [hvals]
        exact Option.map_id'.symm
  · have hperm : (sortedRows desc Prod.fst spec.orderBy rows.zipIdx).Perm rows.zipIdx :=
      List.mergeSort_perm _ _
    have hindices := hperm.map Prod.snd
    rw [List.zipIdx_map_snd] at hindices
    rcases windowValues_eq desc (functionName call) call colIdx spec.orderBy
        ((sortedRows desc Prod.fst spec.orderBy rows.zipIdx).map Prod.fst) with
      ⟨vals, hvals, hlength, hname⟩ | ⟨hvals, hname⟩
    · rw [List.length_map, ← List.length_map Prod.snd] at hlength
      refine ⟨valueFor (((sortedRows desc Prod.fst spec.orderBy rows.zipIdx).map Prod.snd).zip
        vals), ?_, ?_⟩
      · intro k hk
        rw [decide_eq_true hname]
        apply valueFor_isSome hlength
        exact hindices.mem_iff.mpr (List.mem_range'_1.mpr (by omega))
      · intro k
        simp only [hvals]
        apply getElem?_placeAt
        rw [List.map_fst_zip (by rw [hlength])]
        exact hindices.nodup_iff.mpr List.nodup_range'
    · refine ⟨fun _ => none, ?_, ?_⟩
      · intro k _
        rw [decide_eq_false hname]
        rfl
      · intro k
        simp only [hvals]
        exact Option.map_id'.symm

/-- Whether an item is a window function that gives every row a value. -/
def isWindow (item : SelectItem Expr) : Bool :=
  match itemWindow item with
  | some (call, spec) => givesValues call spec
  | none => false

theorem getElem?_applyWindow (rows : List (List String)) (item : SelectItem Expr × Nat) :
    ∃ value : Nat → Option String,
      (∀ k < rows.length, (value k).isSome = isWindow item.1) ∧
        ∀ k, (applyWindow desc rows item)[k]? =
          rows[k]?.map fun row => placed item.2 row (value k) := by
  rw [applyWindow, isWindow]
  cases itemWindow item.1 with
  | none => exact ⟨fun _ => none, fun _ _ => rfl, fun _ => Option.map_id'.symm⟩
  | some window => exact getElem?_computeWindowFunction desc rows item.2 window.1 window.2

end Windows

section Widths

variable [Scalars] (desc : Option TupleDesc)

/-- How many fields a row has after an item of the list. -/
def windowStep (width : Nat) (item : SelectItem Expr × Nat) : Nat :=
  if isWindow item.1 then (if item.2 < width then width else width + 1) else width

/-- How many fields the window functions leave a row. -/
def windowWidth (selectList : List (SelectItem Expr)) (width : Nat) : Nat :=
  selectList.zipIdx.foldl windowStep width

omit [Scalars] in
theorem length_place (colIdx : Nat) (row : List String) (val : String) :
    (place colIdx row val).length = if colIdx < row.length then row.length else row.length + 1 := by
  rw [place]
  split
  · exact List.length_set
  · exact List.length_append

theorem lengths_applyWindow (rows : List (List String)) (item : SelectItem Expr × Nat) :
    (applyWindow desc rows item).map List.length =
      rows.map fun row => windowStep row.length item := by
  obtain ⟨value, hvalue, hrows⟩ := getElem?_applyWindow desc rows item
  apply List.ext_getElem?
  intro k
  rw [List.getElem?_map, List.getElem?_map, hrows]
  cases hrow : rows[k]? with
  | none => rfl
  | some row =>
      have hsome := hvalue k (List.getElem?_eq_some_iff.mp hrow).1
      rw [Option.map_some, Option.map_some, Option.map_some, windowStep, ← hsome]
      cases value k with
      | none => rfl
      | some val => exact congrArg some (length_place item.2 row val)

theorem lengths_foldl (items : List (SelectItem Expr × Nat)) (rows : List (List String)) :
    (items.foldl (applyWindow desc) rows).map List.length =
      rows.map fun row => items.foldl windowStep row.length := by
  induction items generalizing rows with
  | nil => rfl
  | cons item items ih =>
      have hstep := congrArg (List.map fun width => items.foldl windowStep width)
        (lengths_applyWindow desc rows item)
      rw [List.map_map, List.map_map] at hstep
      exact (ih (applyWindow desc rows item)).trans hstep

theorem lengths_applyWindowFunctions (rows : List (List String))
    (selectList : List (SelectItem Expr)) :
    (applyWindowFunctions desc rows selectList).map List.length =
      rows.map fun row => windowWidth selectList row.length :=
  lengths_foldl desc selectList.zipIdx rows

theorem length_applyWindowFunctions (rows : List (List String))
    (selectList : List (SelectItem Expr)) :
    (applyWindowFunctions desc rows selectList).length = rows.length := by
  have hlengths := congrArg List.length (lengths_applyWindowFunctions desc rows selectList)
  rwa [List.length_map, List.length_map] at hlengths

/-- A row that has a field for every item keeps its width. -/
theorem windowWidth_of_le {selectList : List (SelectItem Expr)} {width : Nat}
    (h : selectList.length ≤ width) : windowWidth selectList width = width := by
  have hfoldl (items : List (SelectItem Expr × Nat)) (hitems : ∀ item ∈ items, item.2 < width) :
      items.foldl windowStep width = width := by
    induction items with
    | nil => rfl
    | cons item items ih =>
        have hstep : windowStep width item = width := by
          rw [windowStep, if_pos (hitems item List.mem_cons_self), ite_self]
        rw [List.foldl_cons, hstep]
        exact ih fun item' hitem => hitems item' (List.mem_cons_of_mem _ hitem)
  apply hfoldl
  intro item hitem
  exact (List.snd_lt_of_mem_zipIdx hitem).trans_le (by omega)

end Widths

section Fields

variable [Scalars] (desc : Option TupleDesc)

omit [Scalars] in
theorem getElem?_placed {colIdx j : Nat} {row : List String} {val : Option String}
    (hj : j < row.length) (h : colIdx = j → val = none) :
    (placed colIdx row val)[j]? = row[j]? := by
  cases val with
  | none => rfl
  | some val =>
      have hne : colIdx ≠ j := fun heq => Option.some_ne_none val (h heq)
      rw [placed, place]
      split
      · exact List.getElem?_set_ne hne
      · exact List.getElem?_append_left hj

omit [Scalars] in
theorem length_le_placed {colIdx : Nat} {row : List String} {val : Option String} :
    row.length ≤ (placed colIdx row val).length := by
  cases val with
  | none => exact le_rfl
  | some val =>
      rw [placed, length_place]
      split <;> omega

/-- Only a window function changes its own column. -/
theorem getElem?_foldl (items : List (SelectItem Expr × Nat)) {j k : Nat}
    (hitems : ∀ item ∈ items, item.2 = j → isWindow item.1 = false)
    {rows : List (List String)} {row : List String} (hrow : rows[k]? = some row)
    (hj : j < row.length) :
    ∃ row', (items.foldl (applyWindow desc) rows)[k]? = some row' ∧ row'[j]? = row[j]? := by
  induction items generalizing rows row with
  | nil => exact ⟨row, hrow, rfl⟩
  | cons item items ih =>
      obtain ⟨value, hvalue, hrows⟩ := getElem?_applyWindow desc rows item
      have hplaced := hrows k
      rw [hrow, Option.map_some] at hplaced
      have hnone : item.2 = j → value k = none := by
        intro heq
        have hsome := hvalue k (List.getElem?_eq_some_iff.mp hrow).1
        rw [hitems item List.mem_cons_self heq] at hsome
        exact Option.not_isSome_iff_eq_none.mp (by rw [hsome]; exact Bool.false_ne_true)
      obtain ⟨row', hrow', hfield⟩ :=
        ih (fun item' hitem => hitems item' (List.mem_cons_of_mem _ hitem)) hplaced
          (hj.trans_le length_le_placed)
      exact ⟨row', hrow', hfield.trans (getElem?_placed hj hnone)⟩

theorem getElem?_applyWindowFunctions {selectList : List (SelectItem Expr)} {j k : Nat}
    {item : SelectItem Expr} (hitem : selectList[j]? = some item) (hwindow : isWindow item = false)
    {rows : List (List String)} {row : List String} (hrow : rows[k]? = some row)
    (hj : j < row.length) :
    ∃ row', (applyWindowFunctions desc rows selectList)[k]? = some row' ∧ row'[j]? = row[j]? := by
  apply getElem?_foldl desc _ _ hrow hj
  rintro ⟨item', i⟩ hmem rfl
  have hentry := List.mem_zipIdx_iff_getElem?.mp hmem
  rw [hitem] at hentry
  cases hentry
  exact hwindow

end Fields

end PostgressRs.Executor.WindowPlacement
