import PostgressRs.Executor.WindowValues

/-!
Windows with partitions are computed over all rows: `PARTITION BY` is read and not used
(`compute_window_function` of `src/executor/select/window.rs`).
-/

namespace PostgressRs.Executor.WindowPartitions

open PostgressRs.Executor.Evaluation
open PostgressRs.Executor.WindowFunctions
open PostgressRs.Executor.WindowValues
open PostgressRs.Sql.Ast
open PostgressRs.Types

section Partitions

variable [Scalars] (desc : Option TupleDesc) (rows : List (List String)) (spec : WindowSpec Expr)

def partitionNames : List String :=
  ["ROW_NUMBER", "RANK", "DENSE_RANK", "NTILE", "LAG", "LEAD", "FIRST_VALUE", "LAST_VALUE"]

def samePartition (a b : List String) : Bool :=
  spec.partitionBy.all fun expr => valueOr desc a expr = valueOr desc b expr

/-- The rows with the same partition values as a row. -/
def partitionOf (row : List String) : List (List String) :=
  rows.filter (samePartition desc spec row)

/-- The place of the row at `k` among the rows of its partition. -/
def placeInPartition (row : List String) (k : Nat) : Nat :=
  (rows.take k).countP (samePartition desc spec row)

/-- Each row gets the value that it would get among the rows of its partition alone. -/
def Independent : Prop :=
  ∀ name ∈ partitionNames, ∀ (call : FunctionCall Expr) (colIdx k : Nat) (row : List String),
    rows[k]? = some row →
    assignedValue desc rows colIdx name call spec k =
      assignedValue desc (partitionOf desc rows spec row) colIdx name call spec
        (placeInPartition desc rows spec row k)

/-- The places of the rows of a partition. -/
def partitionPlaces (row : List String) : List Nat :=
  (List.range rows.length).filter fun k => rows[k]?.any (samePartition desc spec row)

/-- Row numbers count the rows of each partition. -/
def NumbersPartitions : Prop :=
  ∀ (call : FunctionCall Expr) (colIdx : Nat), ∀ row ∈ rows,
    ((partitionPlaces desc rows spec row).map
        (assignedValue desc rows colIdx "ROW_NUMBER" call spec)).Perm
      ((numbered (partitionOf desc rows spec row).length).map some)

variable {desc rows spec}

theorem samePartition_self (row : List String) : samePartition desc spec row row = true := by
  rw [samePartition, List.all_eq_true]
  intro expr _
  exact decide_eq_true rfl

theorem samePartition_symm {a b : List String} (h : samePartition desc spec a b = true) :
    samePartition desc spec b a = true := by
  rw [samePartition, List.all_eq_true] at h ⊢
  intro expr hexpr
  exact decide_eq_true (of_decide_eq_true (h expr hexpr)).symm

theorem partitionOf_eq_self {row : List String}
    (h : ∀ other ∈ rows, samePartition desc spec row other = true) :
    partitionOf desc rows spec row = rows :=
  List.filter_eq_self.mpr h

theorem placeInPartition_eq_self {row : List String} {k : Nat} (hk : k < rows.length)
    (h : ∀ other ∈ rows, samePartition desc spec row other = true) :
    placeInPartition desc rows spec row k = k := by
  rw [placeInPartition, List.countP_eq_length.mpr fun other hother =>
    h other (List.mem_of_mem_take hother), List.length_take]
  omega

/-- In a single partition the rows are numbered one after another. -/
theorem numbersPartitions_of_one
    (h : ∀ a ∈ rows, ∀ b ∈ rows, samePartition desc spec a b = true) :
    NumbersPartitions desc rows spec := by
  intro call colIdx row hrow
  have hplaces : partitionPlaces desc rows spec row = List.range rows.length := by
    rw [partitionPlaces, List.filter_eq_self]
    intro k hk
    have hlt := List.mem_range.mp hk
    rw [List.getElem?_eq_getElem hlt]
    exact h row hrow _ (List.getElem_mem hlt)
  have hnumbers : (windowOrder desc spec rows).map
      (assignedValue desc rows colIdx "ROW_NUMBER" call spec) =
        (numbered rows.length).map some := by
    apply List.ext_getElem?
    intro i
    rw [List.getElem?_map, List.getElem?_map]
    rcases lt_or_ge i rows.length with hi | hi
    · obtain ⟨k, hk⟩ := exists_row_at desc spec hi
      rw [hk, Option.map_some, rowNumber_eq hk, getElem?_numbered hi, Option.map_some]
    · have horder : (windowOrder desc spec rows)[i]? = none :=
        List.getElem?_eq_none (by rwa [length_windowOrder])
      rw [horder, List.getElem?_eq_none (by rwa [WindowPlacement.length_numbered])]
      rfl
  rw [hplaces, partitionOf_eq_self (h row hrow), ← hnumbers]
  exact ((perm_windowOrder spec rows).map _).symm

theorem samePartition_trans {a b c : List String} (hab : samePartition desc spec a b = true)
    (hbc : samePartition desc spec b c = true) : samePartition desc spec a c = true := by
  rw [samePartition, List.all_eq_true] at hab hbc ⊢
  intro expr hexpr
  exact decide_eq_true
    ((of_decide_eq_true (hab expr hexpr)).trans (of_decide_eq_true (hbc expr hexpr)))

/-- The rows of a partition have the same partition. -/
theorem samePartition_eq {a b : List String} (h : samePartition desc spec a b = true) :
    samePartition desc spec a = samePartition desc spec b := by
  funext c
  rw [Bool.eq_iff_iff]
  exact ⟨samePartition_trans (samePartition_symm h), samePartition_trans h⟩

omit [Scalars] in
theorem exists_of_lt_countP {α : Type} {p : α → Bool} {l : List α} {i : Nat}
    (h : i < l.countP p) :
    ∃ k a, l[k]? = some a ∧ p a = true ∧ (l.take k).countP p = i := by
  induction l generalizing i with
  | nil => cases h
  | cons a l ih =>
      cases hp : p a with
      | false =>
          rw [List.countP_cons_of_neg (by rw [hp]; exact Bool.false_ne_true)] at h
          obtain ⟨k, b, hb, hpb, hcount⟩ := ih h
          refine ⟨k + 1, b, hb, hpb, ?_⟩
          rw [List.take_succ_cons, List.countP_cons_of_neg (by rw [hp]; exact Bool.false_ne_true),
            hcount]
      | true =>
          cases i with
          | zero => exact ⟨0, a, rfl, hp, rfl⟩
          | succ i =>
              rw [List.countP_cons_of_pos hp] at h
              obtain ⟨k, b, hb, hpb, hcount⟩ := ih (Nat.lt_of_succ_lt_succ h)
              refine ⟨k + 1, b, hb, hpb, ?_⟩
              rw [List.take_succ_cons, List.countP_cons_of_pos hp, hcount]

/-- In the partition of a row some row has the number one. -/
theorem Independent.exists_first (hindependent : Independent desc rows spec) {row : List String}
    (hrow : row ∈ rows) (call : FunctionCall Expr) :
    ∃ row', samePartition desc spec row row' = true ∧
      ∃ k, (windowOrder desc spec rows)[0]? = some k ∧ rows[k]? = some row' := by
  have hmem : row ∈ partitionOf desc rows spec row :=
    List.mem_filter.mpr ⟨hrow, samePartition_self row⟩
  obtain ⟨i, hi⟩ := exists_row_at desc spec (List.length_pos_of_mem hmem)
  have hlt : i < rows.countP (samePartition desc spec row) := by
    rw [List.countP_eq_length_filter]
    exact mem_windowOrder.mp (List.mem_of_getElem? hi)
  obtain ⟨k, row', hrow', hsame, hcount⟩ := exists_of_lt_countP hlt
  refine ⟨row', hsame, k, ?_, hrow'⟩
  have hvalue := hindependent "ROW_NUMBER" (by decide) call 0 k row' hrow'
  rw [placeInPartition, partitionOf, ← samePartition_eq hsame, hcount, ← partitionOf,
    rowNumber_eq hi] at hvalue
  obtain ⟨j, _, hj⟩ := exists_windowOrder desc spec (List.getElem?_eq_some_iff.mp hrow').1
  rw [rowNumber_eq hj] at hvalue
  have hzero := Nat.succ.inj (toString_injective (Option.some.inj hvalue))
  rwa [hzero] at hj

variable (desc rows spec) in
/-- Windows with partitions are right exactly if all rows are in one partition. -/
theorem partitions_iff :
    (Independent desc rows spec ∧ NumbersPartitions desc rows spec) ↔
      ∀ a ∈ rows, ∀ b ∈ rows, samePartition desc spec a b = true := by
  constructor
  · rintro ⟨hindependent, -⟩ a ha b hb
    obtain ⟨a', haa', k, hk, hka⟩ := hindependent.exists_first ha ⟨.single "", [], none, none⟩
    obtain ⟨b', hbb', l, hl, hlb⟩ := hindependent.exists_first hb ⟨.single "", [], none, none⟩
    obtain rfl : k = l := Option.some.inj (hk.symm.trans hl)
    obtain rfl : a' = b' := Option.some.inj (hka.symm.trans hlb)
    exact samePartition_trans haa' (samePartition_symm hbb')
  · intro hall
    refine ⟨?_, numbersPartitions_of_one hall⟩
    intro name _ call colIdx k row hrow
    have hone := hall row (List.mem_of_getElem? hrow)
    rw [partitionOf_eq_self hone,
      placeInPartition_eq_self (List.getElem?_eq_some_iff.mp hrow).1 hone]

end Partitions

section Rows

attribute [local instance] wholeNumbers

def groupColumn : TupleDesc :=
  ⟨[{ name := "team", typeOid := ⟨25⟩, attnum := 0, typmod := -1 }]⟩

/-- `OVER (PARTITION BY team)`. -/
def byTeam : WindowSpec Expr := ⟨[.identifier "team"], [], none⟩

def rowNumberCall : FunctionCall Expr := ⟨.single "row_number", [], none, none⟩

/-- The second of two rows in different partitions has number 2. -/
theorem second_partition_starts_at_two :
    samePartition (some groupColumn) byTeam ["a"] ["b"] = false ∧
      placeInPartition (some groupColumn) [["a"], ["b"]] byTeam ["b"] 1 = 0 ∧
      assignedValue (some groupColumn) [["a"], ["b"]] 1 "ROW_NUMBER" rowNumberCall byTeam 1 =
        some "2" ∧
      assignedValue (some groupColumn) (partitionOf (some groupColumn) [["a"], ["b"]] byTeam ["b"])
        1 "ROW_NUMBER" rowNumberCall byTeam 0 = some "1" := by
  refine ⟨by decide +kernel, by decide +kernel, ?_, ?_⟩
  · have hplace : (windowOrder (some groupColumn) byTeam [["a"], ["b"]])[1]? = some 1 := by
      rw [windowOrder_of_isEmpty rfl]
      rfl
    exact (rowNumber_eq hplace).trans (by decide)
  · have hpartition : partitionOf (some groupColumn) [["a"], ["b"]] byTeam ["b"] = [["b"]] := by
      decide +kernel
    have hplace : (windowOrder (some groupColumn) byTeam [["b"]])[0]? = some 0 := by
      rw [windowOrder_of_isEmpty rfl]
      rfl
    rw [hpartition]
    exact (rowNumber_eq hplace).trans (by decide)

end Rows

end PostgressRs.Executor.WindowPartitions
