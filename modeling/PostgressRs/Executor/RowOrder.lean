import PostgressRs.Executor.SelectExecutor
import PostgressRs.Lib.Comparisons

/-!
The order of rows by the items of an order list (`apply_order_by` of
`src/executor/select/filter_limit.rs`).
-/

namespace PostgressRs.Executor.RowOrder

open PostgressRs.Executor.Evaluation
open PostgressRs.Executor.HeapAccess (Row)
open PostgressRs.Executor.SelectExecutor
open PostgressRs.Executor.WindowFunctions
open PostgressRs.Lib.Comparisons
open PostgressRs.Sql.Ast
open PostgressRs.Types
open Std

section Items

variable [Scalars] (desc : Option TupleDesc)

/-- What an item orders a row by; nulls are missing. -/
def orderValue (expr : Expr) (row : List String) : Option String :=
  let val := valueOr desc row expr
  if isNull val then none else some val

def orderValues (orderBy : List (OrderByItem Expr)) (row : List String) : List (Option String) :=
  orderBy.map fun item => orderValue desc item.expr row

def compareValues (direction : SortDirection) (nulls : NullsOrder) :
    Option String → Option String → Ordering :=
  withMissing (nulls = .first) fun a b => directed direction (compare a b)

def compareItem (item : OrderByItem Expr) (a b : List String) : Ordering :=
  compareValues item.direction item.nulls (orderValue desc item.expr a)
    (orderValue desc item.expr b)

omit [Scalars] in
theorem transCmp_directed (direction : SortDirection) :
    TransCmp fun a b : String => directed direction (compare a b) := by
  cases direction with
  | asc => exact inferInstanceAs (TransCmp fun a b : String => compare a b)
  | desc | default =>
      exact transCmp_swap (inferInstanceAs (TransCmp fun a b : String => compare a b))

omit [Scalars] in
theorem directed_eq_iff {direction : SortDirection} {cmp : Ordering} :
    directed direction cmp = .eq ↔ cmp = .eq := by
  cases direction <;> cases cmp <;> decide

theorem transCmp_compareItem (item : OrderByItem Expr) : TransCmp (compareItem desc item) :=
  transCmp_on (transCmp_withMissing (transCmp_directed item.direction) _)
    (orderValue desc item.expr)

variable {desc} in
theorem compareItem_eq_iff {item : OrderByItem Expr} {a b : List String} :
    compareItem desc item a b = .eq ↔
      orderValue desc item.expr a = orderValue desc item.expr b := by
  apply withMissing_eq_iff
  intro s t
  rw [directed_eq_iff, LawfulEqCmp.compare_eq_iff_eq]

theorem compareRows_cons (item : OrderByItem Expr) (items : List (OrderByItem Expr))
    (a b : List String) :
    compareRows desc a b (item :: items) =
      (compareItem desc item a b).then (compareRows desc a b items) := by
  rw [compareRows, compareItem, orderValue, orderValue]
  cases isNull (valueOr desc a item.expr) with
  | true =>
      cases isNull (valueOr desc b item.expr) with
      | true => rfl
      | false => rcases item with ⟨_, _, _ | _ | _⟩ <;> rfl
  | false =>
      cases isNull (valueOr desc b item.expr) with
      | true => rcases item with ⟨_, _, _ | _ | _⟩ <;> rfl
      | false =>
          simp only [Bool.false_eq_true, if_false, compareValues, withMissing]
          cases directed item.direction
            (compare (valueOr desc a item.expr) (valueOr desc b item.expr)) <;> rfl

theorem compareRows_eq (items : List (OrderByItem Expr)) (a b : List String) :
    compareRows desc a b items = inTurn (items.map (compareItem desc)) a b := by
  induction items with
  | nil => rfl
  | cons item items ih => rw [compareRows_cons, ih, List.map_cons, inTurn_cons]

theorem transCmp_compareRows (items : List (OrderByItem Expr)) :
    TransCmp fun a b => compareRows desc a b items := by
  have hturn : TransCmp (inTurn (items.map (compareItem desc))) := by
    apply transCmp_inTurn
    intro cmp hcmp
    obtain ⟨item, _, rfl⟩ := List.mem_map.mp hcmp
    exact transCmp_compareItem desc item
  have hrows : (fun a b => compareRows desc a b items) = inTurn (items.map (compareItem desc)) := by
    funext a b
    exact compareRows_eq desc items a b
  rwa [hrows]

variable {desc} in
/-- Rows tie if they agree on all values they are ordered by. -/
theorem compareRows_eq_iff {items : List (OrderByItem Expr)} {a b : List String} :
    compareRows desc a b items = .eq ↔
      orderValues desc items a = orderValues desc items b := by
  rw [compareRows_eq, inTurn_eq_iff, List.forall_mem_map, orderValues, orderValues,
    List.map_inj_left]
  exact forall₂_congr fun item _ => compareItem_eq_iff

theorem sortedRows_eq {α : Type} (fields : α → List String) (items : List (OrderByItem Expr))
    (rows : List α) :
    sortedRows desc fields items rows =
      sortBy (fun a b => compareRows desc (fields a) (fields b) items) rows := rfl

theorem transCmp_fields {α : Type} (fields : α → List String) (items : List (OrderByItem Expr)) :
    TransCmp fun a b => compareRows desc (fields a) (fields b) items :=
  transCmp_on (transCmp_compareRows desc items) fields

end Items

section Sorting

variable [Scalars] (context : ExecContext) (orderBy : List (OrderByItem Expr))

/-- The order of `apply_order_by`. -/
def rowsInOrder (a b : Row) : Prop := compareRows context.tupleDesc a.2 b.2 orderBy ≠ .gt

def rowsTie (a b : Row) : Bool := compareRows context.tupleDesc a.2 b.2 orderBy = .eq

/-- The rows are ordered up to ties, and sorted without moving rows that tie. -/
theorem applyOrderBy_sorts :
    (∀ a, rowsInOrder context orderBy a a) ∧
      (∀ a b c, rowsInOrder context orderBy a b → rowsInOrder context orderBy b c →
        rowsInOrder context orderBy a c) ∧
      (∀ a b, rowsInOrder context orderBy a b ∨ rowsInOrder context orderBy b a) ∧
      (∀ a b, rowsInOrder context orderBy a b ∧ rowsInOrder context orderBy b a ↔
        rowsTie context orderBy a b) ∧
      (∀ a b : Row, compareRows context.tupleDesc b.2 a.2 orderBy =
        (compareRows context.tupleDesc a.2 b.2 orderBy).swap) ∧
      ∀ rows, (applyOrderBy context rows orderBy).Perm rows ∧
        (applyOrderBy context rows orderBy).Pairwise (rowsInOrder context orderBy) ∧
        ∀ row, (applyOrderBy context rows orderBy).filter (rowsTie context orderBy row) =
          rows.filter (rowsTie context orderBy row) := by
  have hcmp : TransCmp fun a b : Row => compareRows context.tupleDesc a.2 b.2 orderBy :=
    transCmp_fields context.tupleDesc Prod.snd orderBy
  have hswap : ∀ a b : Row, compareRows context.tupleDesc b.2 a.2 orderBy =
      (compareRows context.tupleDesc a.2 b.2 orderBy).swap := fun a b => hcmp.eq_swap
  have hinOrder : ∀ a b, rowsInOrder context orderBy a b ↔
      (compareRows context.tupleDesc a.2 b.2 orderBy).isLE := by
    intro a b
    rw [rowsInOrder]
    cases compareRows context.tupleDesc a.2 b.2 orderBy <;> decide
  refine ⟨?_, ?_, ?_, ?_, hswap, ?_⟩
  · intro a
    rw [hinOrder, compareRows_eq_iff.mpr rfl]
    rfl
  · intro a b c hab hbc
    rw [hinOrder] at hab hbc ⊢
    exact hcmp.isLE_trans hab hbc
  · intro a b
    rw [hinOrder, hinOrder, hswap a b]
    cases compareRows context.tupleDesc a.2 b.2 orderBy <;> decide
  · intro a b
    rw [hinOrder, hinOrder, hswap a b, rowsTie]
    cases compareRows context.tupleDesc a.2 b.2 orderBy <;> decide
  · intro rows
    exact ⟨perm_sortBy _ rows, @pairwise_sortBy _ _ hcmp rows,
      fun row => @filter_sortBy _ _ hcmp row rows⟩

end Sorting

end PostgressRs.Executor.RowOrder
