import PostgressRs.Executor.WindowValues
import PostgressRs.Sql.OrderTexts

/-!
Order lists with directions left out: a direction that is not written counts as a descending
one (`src/executor/select/filter_limit.rs`, `src/executor/select/window.rs`).
-/

namespace PostgressRs.Executor.DefaultDirection

open PostgressRs.Executor.Evaluation
open PostgressRs.Executor.HeapAccess (Row)
open PostgressRs.Executor.RowOrder
open PostgressRs.Executor.SelectExecutor
open PostgressRs.Executor.WindowFunctions
open PostgressRs.Executor.WindowValues
open PostgressRs.Lib.Comparisons
open PostgressRs.Sql.Ast
open PostgressRs.Sql.ExprParser
open PostgressRs.Sql.OrderTexts
open PostgressRs.Sql.SelectParser
open PostgressRs.Sql.Tokenizer
open PostgressRs.Sql.TokenStream
open PostgressRs.Types
open Std

section Items

/-- An item, and whether `ASC` is to be written where it has no direction. -/
abbrev Choice : Type := OrderByItem Expr × Bool

def writeAsc (written : Bool) (direction : SortDirection) : SortDirection :=
  if written ∧ direction = .default then .asc else direction

def Choice.ascending (choice : Choice) : OrderByItem Expr :=
  { choice.1 with direction := writeAsc choice.2 choice.1.direction }

variable [Scalars] (desc : Option TupleDesc)

/-- The first item that tells two rows apart is one at which `ASC` is to be written, and
neither value is null. -/
def reversed (a b : List String) : List Choice → Bool
  | [] => false
  | choice :: choices =>
      if compareItem desc choice.1 a b = .eq then reversed a b choices
      else choice.2 && choice.1.direction = .default &&
        (orderValue desc choice.1.expr a).isSome && (orderValue desc choice.1.expr b).isSome

variable {desc}

theorem compareItem_ascending_eq_iff (choice : Choice) (a b : List String) :
    compareItem desc choice.ascending a b = .eq ↔ compareItem desc choice.1 a b = .eq := by
  rw [compareItem_eq_iff, compareItem_eq_iff]
  rfl

theorem compareItem_ascending {choice : Choice} {a b : List String}
    (hne : compareItem desc choice.1 a b ≠ .eq) :
    compareItem desc choice.1 a b = compareItem desc choice.ascending a b ↔
      (choice.2 && choice.1.direction = .default && (orderValue desc choice.1.expr a).isSome &&
        (orderValue desc choice.1.expr b).isSome) = false := by
  obtain ⟨⟨expr, direction, nulls⟩, written⟩ := choice
  simp only [compareItem, compareValues, Choice.ascending] at hne ⊢
  cases ha : orderValue desc expr a with
  | none => cases orderValue desc expr b <;> exact iff_of_true rfl (by simp)
  | some s =>
      cases hb : orderValue desc expr b with
      | none => exact iff_of_true rfl (by simp)
      | some t =>
          rw [ha, hb, withMissing] at hne
          cases written with
          | false => exact iff_of_true rfl rfl
          | true =>
              cases direction with
              | asc | desc => exact iff_of_true rfl rfl
              | default =>
                  refine iff_of_false ?_ Bool.true_eq_false_eq_False
                  intro heq
                  have htie : compare s t = .eq := swap_eq_self_iff.mp heq
                  exact hne (congrArg Ordering.swap htie)

theorem compareRows_ascending_iff (a b : List String) (choices : List Choice) :
    compareRows desc a b (choices.map Prod.fst) =
        compareRows desc a b (choices.map Choice.ascending) ↔
      reversed desc a b choices = false := by
  induction choices with
  | nil => exact iff_of_true rfl rfl
  | cons choice choices ih =>
      rw [List.map_cons, List.map_cons, compareRows_cons, compareRows_cons, reversed,
        then_eq_then_iff (compareItem_ascending_eq_iff choice a b).symm]
      split
      · exact ih
      · exact compareItem_ascending ‹_›

theorem orderValues_ascending (choices : List Choice) (row : List String) :
    orderValues desc (choices.map Choice.ascending) row =
      orderValues desc (choices.map Prod.fst) row := by
  rw [orderValues, orderValues, List.map_map, List.map_map]
  rfl

/-- No two of the rows are put the other way round. -/
def NoneReversed (desc : Option TupleDesc) (rows : List (List String)) (choices : List Choice) :
    Prop :=
  ∀ a ∈ rows, ∀ b ∈ rows, reversed desc a b choices = false

instance (rows : List (List String)) (choices : List Choice) :
    Decidable (NoneReversed desc rows choices) :=
  inferInstanceAs (Decidable (∀ a ∈ rows, ∀ b ∈ rows, _))

theorem sortedRows_ascending_iff {α : Type} (fields : α → List String) (rows : List α)
    (choices : List Choice) :
    sortedRows desc fields (choices.map Prod.fst) rows =
        sortedRows desc fields (choices.map Choice.ascending) rows ↔
      NoneReversed desc (rows.map fields) choices := by
  have hcmp := transCmp_fields desc fields (choices.map Prod.fst)
  have hcmp' := transCmp_fields desc fields (choices.map Choice.ascending)
  have hties : ∀ a b, compareRows desc (fields a) (fields b) (choices.map Prod.fst) = .eq ↔
      compareRows desc (fields a) (fields b) (choices.map Choice.ascending) = .eq := by
    intro a b
    rw [compareRows_eq_iff, compareRows_eq_iff, orderValues_ascending, orderValues_ascending]
  rw [sortedRows_eq, sortedRows_eq, sortBy_eq_iff hties]
  simp only [compareRows_ascending_iff, NoneReversed, List.forall_mem_map]

end Items

section Windows

variable [Scalars] {desc : Option TupleDesc} {rows : List (List String)} {choices : List Choice}

theorem rowsEqualOnOrderBy_ascending (choices : List Choice) :
    rowsEqualOnOrderBy (choices.map Choice.ascending) =
      rowsEqualOnOrderBy (choices.map Prod.fst) := by
  funext a b
  rw [rowsEqualOnOrderBy, rowsEqualOnOrderBy, List.all_map, List.all_map]
  rfl

theorem peers_congr {orderBy orderBy' : List (OrderByItem Expr)}
    (h : rowsEqualOnOrderBy orderBy = rowsEqualOnOrderBy orderBy') (rows : List (List String)) :
    peers orderBy rows = peers orderBy' rows := by
  induction rows using peers.induct orderBy with
  | case1 => rw [peers, peers]
  | case2 row rows ih => rw [peers, peers, ih, h]

theorem windowValues_ascending (name : String) (call : FunctionCall Expr) (colIdx : Nat)
    (rows : List (List String)) :
    windowValues desc name call colIdx (choices.map Choice.ascending) rows =
      windowValues desc name call colIdx (choices.map Prod.fst) rows := by
  unfold windowValues
  rw [peers_congr (rowsEqualOnOrderBy_ascending choices)]

/-- The places tell the rows. -/
theorem sortedIndexed_eq (orderBy : List (OrderByItem Expr)) (partitionBy : List Expr)
    (frame : Option (FrameClause Expr)) :
    sortedIndexed desc orderBy rows =
      (windowOrder desc ⟨partitionBy, orderBy, frame⟩ rows).map fun k =>
        (rows[k]?.getD [], k) := by
  have hrow : ∀ pair ∈ sortedIndexed desc orderBy rows, (rows[pair.2]?.getD [], pair.2) = pair := by
    intro pair hpair
    have hzip := (perm_sortedIndexed orderBy rows).mem_iff.mp hpair
    rw [List.mem_zipIdx_iff_getElem?.mp hzip]
    rfl
  rw [windowOrder, List.map_map]
  exact ((List.map_congr_left hrow).trans (List.map_id _)).symm

theorem computeWindowFunction_ascending {partitionBy : List Expr}
    {frame : Option (FrameClause Expr)} (h : NoneReversed desc rows choices) (colIdx : Nat)
    (name : String) (call : FunctionCall Expr) :
    computeWindowFunction desc rows colIdx name call
        ⟨partitionBy, choices.map Prod.fst, frame⟩ =
      computeWindowFunction desc rows colIdx name call
        ⟨partitionBy, choices.map Choice.ascending, frame⟩ := by
  have hsorted : sortedIndexed desc (choices.map Prod.fst) rows =
      sortedIndexed desc (choices.map Choice.ascending) rows := by
    apply (sortedRows_ascending_iff Prod.fst rows.zipIdx choices).mpr
    rwa [List.zipIdx_map_fst]
  have hvalues : valuesInOrder desc rows colIdx name call
      ⟨partitionBy, choices.map Prod.fst, frame⟩ =
        valuesInOrder desc rows colIdx name call
          ⟨partitionBy, choices.map Choice.ascending, frame⟩ := by
    rw [valuesInOrder, valuesInOrder]
    simp only [hsorted, windowValues_ascending, List.isEmpty_map]
  rw [computeWindowFunction_eq, computeWindowFunction_eq, hvalues, windowOrder, windowOrder,
    hsorted]

/-- Row numbers tell the order of the rows. -/
theorem windowOrder_eq_of_rowNumber {spec spec' : WindowSpec Expr} {call : FunctionCall Expr}
    {colIdx : Nat}
    (h : computeWindowFunction desc rows colIdx "ROW_NUMBER" call spec =
      computeWindowFunction desc rows colIdx "ROW_NUMBER" call spec') :
    windowOrder desc spec rows = windowOrder desc spec' rows := by
  apply List.ext_getElem?
  intro i
  rcases lt_or_ge i rows.length with hi | hi
  · obtain ⟨k, hk⟩ := exists_row_at desc spec hi
    obtain ⟨j, _, hj⟩ := exists_windowOrder desc spec'
      (mem_windowOrder.mp (List.mem_of_getElem? hk))
    have hassigned : assignedValue desc rows colIdx "ROW_NUMBER" call spec k =
        assignedValue desc rows colIdx "ROW_NUMBER" call spec' k := by
      rw [assignedValue, assignedValue, h]
    rw [rowNumber_eq hk, rowNumber_eq hj] at hassigned
    have hij := Nat.succ.inj (toString_injective (Option.some.inj hassigned))
    rw [hk, hij, hj]
  · rw [List.getElem?_eq_none (by rwa [length_windowOrder]),
      List.getElem?_eq_none (by rwa [length_windowOrder])]

/-- All window functions agree exactly if no rows are put the other way round. -/
theorem windows_ascending_iff (desc : Option TupleDesc) (rows : List (List String))
    (choices : List Choice) (partitionBy : List Expr) (frame : Option (FrameClause Expr)) :
    (∀ colIdx name call, computeWindowFunction desc rows colIdx name call
          ⟨partitionBy, choices.map Prod.fst, frame⟩ =
        computeWindowFunction desc rows colIdx name call
          ⟨partitionBy, choices.map Choice.ascending, frame⟩) ↔
      NoneReversed desc rows choices := by
  constructor
  · intro h
    have horder := windowOrder_eq_of_rowNumber (h 0 "ROW_NUMBER" ⟨.single "", [], none, none⟩)
    have hsorted : sortedIndexed desc (choices.map Prod.fst) rows =
        sortedIndexed desc (choices.map Choice.ascending) rows := by
      rw [sortedIndexed_eq (choices.map Prod.fst) partitionBy frame,
        sortedIndexed_eq (choices.map Choice.ascending) partitionBy frame, horder]
    have hnone := (sortedRows_ascending_iff Prod.fst rows.zipIdx choices).mp hsorted
    rwa [List.zipIdx_map_fst] at hnone
  · intro h colIdx name call
    exact computeWindowFunction_ascending h colIdx name call

end Windows

section Runs

variable [Scalars] (n : Nat)

def parsedItems (ts : List Token) : Option (List (OrderByItem Expr)) :=
  match listBy "ORDER" (orderByItem (calls n)) ts with
  | .ok items _ => some items
  | _ => none

/-- The rows in the order that a text says. -/
def orderedBy (context : ExecContext) (rows : List Row) (ts : List Token) : Option (List Row) :=
  (parsedItems n ts).map (applyOrderBy context rows)

/-- The rows after a function over a window with the order that a text says. -/
def windowedBy (desc : Option TupleDesc) (rows : List (List String)) (partitionBy : List Expr)
    (frame : Option (FrameClause Expr)) (colIdx : Nat) (name : String) (call : FunctionCall Expr)
    (ts : List Token) : Option (List (List String)) :=
  (parsedItems n ts).map fun items =>
    computeWindowFunction desc rows colIdx name call ⟨partitionBy, items, frame⟩

variable {n} {stop : Token}

def ascendingText (text : ItemText n stop) (written : Bool) : ItemText n stop :=
  { text with
    item := Choice.ascending (text.item, written)
    reads := text.reads }

/-- The list as it stands, and with `ASC` written where it is chosen. -/
def omitted (texts : List (ItemText n stop × Bool)) : List (ItemText n stop) :=
  texts.map Prod.fst

def written (texts : List (ItemText n stop × Bool)) : List (ItemText n stop) :=
  texts.map fun text => ascendingText text.1 text.2

def choicesOf (texts : List (ItemText n stop × Bool)) : List Choice :=
  texts.map fun text => (text.1.item, text.2)

omit [Scalars] in
theorem parsedItems_print {texts : List (ItemText n stop)} (hne : texts ≠ [])
    (hstop : EndsList stop) (rest : List Token) :
    parsedItems n (printOrder texts ++ stop :: rest) = some (texts.map ItemText.item) := by
  rw [parsedItems, listBy_print hne hstop rest]

omit [Scalars] in
theorem parsedItems_omitted {texts : List (ItemText n stop × Bool)} (hne : texts ≠ [])
    (hstop : EndsList stop) (rest : List Token) :
    parsedItems n (printOrder (omitted texts) ++ stop :: rest) =
      some ((choicesOf texts).map Prod.fst) := by
  rw [parsedItems_print (by simpa [omitted] using hne) hstop, omitted, choicesOf, List.map_map,
    List.map_map]
  rfl

omit [Scalars] in
theorem parsedItems_written {texts : List (ItemText n stop × Bool)} (hne : texts ≠ [])
    (hstop : EndsList stop) (rest : List Token) :
    parsedItems n (printOrder (written texts) ++ stop :: rest) =
      some ((choicesOf texts).map Choice.ascending) := by
  rw [parsedItems_print (by simpa [written] using hne) hstop, written, choicesOf, List.map_map,
    List.map_map]
  rfl

/-- A direction that is left out means the same as `ASC` exactly if no two rows are told
apart by non-null values of an item without one. -/
theorem default_direction_iff {texts : List (ItemText n stop × Bool)} (hne : texts ≠ [])
    (hstop : EndsList stop) (rest : List Token) (context : ExecContext) (rows : List Row) :
    (orderedBy n context rows (printOrder (omitted texts) ++ stop :: rest) =
        orderedBy n context rows (printOrder (written texts) ++ stop :: rest) ↔
      NoneReversed context.tupleDesc (rows.map Prod.snd) (choicesOf texts)) ∧
    ∀ (partitionBy : List Expr) (frame : Option (FrameClause Expr)),
      (∀ colIdx name call,
        windowedBy n context.tupleDesc (rows.map Prod.snd) partitionBy frame colIdx name call
            (printOrder (omitted texts) ++ stop :: rest) =
          windowedBy n context.tupleDesc (rows.map Prod.snd) partitionBy frame colIdx name call
            (printOrder (written texts) ++ stop :: rest)) ↔
        NoneReversed context.tupleDesc (rows.map Prod.snd) (choicesOf texts) := by
  simp only [orderedBy, windowedBy, parsedItems_omitted hne hstop, parsedItems_written hne hstop,
    Option.map_some, Option.some.injEq]
  exact ⟨sortedRows_ascending_iff Prod.snd rows (choicesOf texts),
    windows_ascending_iff context.tupleDesc (rows.map Prod.snd) (choicesOf texts)⟩

end Runs

section Rows

attribute [local instance] wholeNumbers

/-- `age`, with `ASC` to be written. -/
def ageText : ItemText 2 .eof × Bool :=
  (.ofPlain rfl (.identifier ⟨"age", by decide⟩) (by decide) .default .default, true)

def ageContext : ExecContext :=
  ⟨["age"], some ⟨[{ name := "age", typeOid := ⟨25⟩, attnum := 0, typmod := -1 }]⟩⟩

def ageRow (age : String) : Row := (⟨⟨0⟩, 0⟩, [age])

theorem default_direction_iff_equal :
    orderedBy 2 ageContext [ageRow "1", ageRow "1"] (printOrder (omitted [ageText]) ++ [.eof]) =
      orderedBy 2 ageContext [ageRow "1", ageRow "1"]
        (printOrder (written [ageText]) ++ [.eof]) := by
  have hnone : NoneReversed ageContext.tupleDesc
      ([ageRow "1", ageRow "1"].map Prod.snd) (choicesOf [ageText]) := by
    decide +kernel
  exact (default_direction_iff (by decide) ⟨rfl, by decide⟩ [] ageContext
    [ageRow "1", ageRow "1"]).1.mpr hnone

/-- Ordered by `age` the greater one of two ages comes first. -/
theorem default_direction_descends :
    orderedBy 2 ageContext [ageRow "1", ageRow "2"] (printOrder (omitted [ageText]) ++ [.eof]) ≠
      orderedBy 2 ageContext [ageRow "1", ageRow "2"]
        (printOrder (written [ageText]) ++ [.eof]) := by
  have hend : EndsList .eof := ⟨rfl, by decide⟩
  have hnone : ¬NoneReversed ageContext.tupleDesc
      ([ageRow "1", ageRow "2"].map Prod.snd) (choicesOf [ageText]) := by
    decide +kernel
  rw [orderedBy, orderedBy, parsedItems_omitted (by decide) hend,
    parsedItems_written (by decide) hend, Option.map_some, Option.map_some, Ne,
    Option.some.injEq]
  exact fun heq => hnone ((sortedRows_ascending_iff Prod.snd _ _).mp heq)

end Rows

end PostgressRs.Executor.DefaultDirection
