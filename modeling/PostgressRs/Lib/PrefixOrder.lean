import Mathlib.Data.List.Lex
import Mathlib.Data.List.Infix
import Mathlib.Order.Compare
import Mathlib.Order.Lattice

/-!
Lexicographic comparison of lists, part by part: behind a common part, behind parts of one
width, and behind parts that end in a stop beyond all their elements.
-/

namespace PostgressRs.Lib.PrefixOrder

variable {α : Type} [LinearOrder α]

/-- The comparison of the lexicographic order. -/
def lexCompare (a b : List α) : Ordering := @compare (List α) LinearOrder.toOrd a b

theorem lexCompare_eq_iff {a b : List α} : lexCompare a b = .eq ↔ a = b := compare_eq_iff_eq

theorem lexCompare_of_lt {a b : List α} (h : a < b) : lexCompare a b = .lt :=
  compare_lt_iff_lt.mpr h

theorem lexCompare_of_gt {a b : List α} (h : b < a) : lexCompare a b = .gt :=
  compare_gt_iff_gt.mpr h

@[simp] theorem lexCompare_self (a : List α) : lexCompare a a = .eq := lexCompare_eq_iff.mpr rfl

@[simp] theorem lexCompare_nil_cons (y : α) (ys : List α) : lexCompare [] (y :: ys) = .lt :=
  lexCompare_of_lt (List.nil_lt_cons y ys)

@[simp] theorem lexCompare_cons_nil (x : α) (xs : List α) : lexCompare (x :: xs) [] = .gt :=
  lexCompare_of_gt (List.nil_lt_cons x xs)

theorem lexCompare_cons (x y : α) (xs ys : List α) :
    lexCompare (x :: xs) (y :: ys) = (compare x y).then (lexCompare xs ys) := by
  rcases lt_trichotomy x y with hlt | rfl | hgt
  · rw [compare_lt_iff_lt.mpr hlt]
    exact lexCompare_of_lt (List.cons_lt_cons_iff.mpr (.inl hlt))
  · rw [compare_eq_iff_eq.mpr rfl]
    show lexCompare (x :: xs) (x :: ys) = lexCompare xs ys
    rcases lt_trichotomy xs ys with hlt | rfl | hgt
    · rw [lexCompare_of_lt hlt]
      exact lexCompare_of_lt (List.cons_lt_cons_iff.mpr (.inr ⟨rfl, hlt⟩))
    · rw [lexCompare_self, lexCompare_self]
    · rw [lexCompare_of_gt hgt]
      exact lexCompare_of_gt (List.cons_lt_cons_iff.mpr (.inr ⟨rfl, hgt⟩))
  · rw [compare_gt_iff_gt.mpr hgt]
    exact lexCompare_of_gt (List.cons_lt_cons_iff.mpr (.inl hgt))

theorem lexCompare_append_left (front a b : List α) :
    lexCompare (front ++ a) (front ++ b) = lexCompare a b := by
  induction front with
  | nil => rfl
  | cons x front ih =>
      rw [List.cons_append, List.cons_append, lexCompare_cons, compare_eq_iff_eq.mpr rfl, ih]
      rfl

/-- Parts of one width are compared first. -/
theorem lexCompare_append {a b : List α} (h : a.length = b.length) (c d : List α) :
    lexCompare (a ++ c) (b ++ d) = (lexCompare a b).then (lexCompare c d) := by
  induction a generalizing b with
  | nil =>
      obtain rfl : b = [] := List.eq_nil_of_length_eq_zero h.symm
      rfl
  | cons x a ih =>
      obtain ⟨y, b, rfl⟩ := List.exists_cons_of_length_eq_add_one h.symm
      rw [List.cons_append, List.cons_append, lexCompare_cons, lexCompare_cons,
        ih (Nat.succ.inj h), Ordering.then_assoc]

/-- The order that differs from the lexicographic one in that a list comes behind the lists that
go on after it. -/
def prefixLast : List α → List α → Ordering
  | [], [] => .eq
  | [], _ :: _ => .gt
  | _ :: _, [] => .lt
  | x :: xs, y :: ys => (compare x y).then (prefixLast xs ys)

/-- Parts that end in a stop beyond their elements. -/
theorem lexCompare_stopped {a b : List α} {stop : α} (ha : ∀ x ∈ a, x < stop)
    (hb : ∀ y ∈ b, y < stop) (c d : List α) :
    lexCompare (a ++ stop :: c) (b ++ stop :: d) = (prefixLast a b).then (lexCompare c d) := by
  induction a generalizing b with
  | nil =>
      cases b with
      | nil =>
          rw [List.nil_append, List.nil_append, lexCompare_cons, compare_eq_iff_eq.mpr rfl]
          rfl
      | cons y b =>
          rw [List.nil_append, List.cons_append, lexCompare_cons,
            compare_gt_iff_gt.mpr (hb y List.mem_cons_self)]
          rfl
  | cons x a ih =>
      rw [List.forall_mem_cons] at ha
      cases b with
      | nil =>
          rw [List.nil_append, List.cons_append, lexCompare_cons, compare_lt_iff_lt.mpr ha.1]
          rfl
      | cons y b =>
          rw [List.forall_mem_cons] at hb
          rw [List.cons_append, List.cons_append, lexCompare_cons, ih ha.2 hb.2, prefixLast,
            Ordering.then_assoc]

/-- One of the two lists goes on after the other. -/
def Comparable (a b : List α) : Prop := a <+: b ∨ b <+: a

omit [LinearOrder α] in
theorem comparable_cons {x y : α} {a b : List α} :
    Comparable (x :: a) (y :: b) ↔ x = y ∧ Comparable a b := by
  rw [Comparable, Comparable, List.cons_prefix_cons, List.cons_prefix_cons]
  constructor
  · rintro (⟨rfl, h⟩ | ⟨rfl, h⟩)
    · exact ⟨rfl, .inl h⟩
    · exact ⟨rfl, .inr h⟩
  · rintro ⟨rfl, h | h⟩
    · exact .inl ⟨rfl, h⟩
    · exact .inr ⟨rfl, h⟩

theorem prefixLast_of_comparable {a b : List α} (h : Comparable a b) :
    prefixLast a b = (lexCompare a b).swap := by
  induction a generalizing b with
  | nil =>
      cases b with
      | nil => rfl
      | cons y b =>
          rw [lexCompare_nil_cons]
          rfl
  | cons x a ih =>
      cases b with
      | nil =>
          rw [lexCompare_cons_nil]
          rfl
      | cons y b =>
          obtain ⟨rfl, hrest⟩ := comparable_cons.mp h
          rw [prefixLast, lexCompare_cons, ih hrest, compare_eq_iff_eq.mpr rfl]
          rfl

theorem prefixLast_of_not_comparable {a b : List α} (h : ¬Comparable a b) :
    prefixLast a b = lexCompare a b := by
  induction a generalizing b with
  | nil => exact absurd (.inl List.nil_prefix) h
  | cons x a ih =>
      cases b with
      | nil => exact absurd (.inr List.nil_prefix) h
      | cons y b =>
          rw [prefixLast, lexCompare_cons]
          rcases eq_or_ne x y with rfl | hne
          · rw [ih fun hrest => h (comparable_cons.mpr ⟨rfl, hrest⟩)]
          · have hcompare : compare x y ≠ .eq := fun heq => hne (compare_eq_iff_eq.mp heq)
            cases hxy : compare x y with
            | eq => exact absurd hxy hcompare
            | lt => rfl
            | gt => rfl

theorem prefixLast_eq_iff {a b : List α} : prefixLast a b = .eq ↔ a = b := by
  rw [← lexCompare_eq_iff]
  rcases Classical.em (Comparable a b) with h | h
  · rw [prefixLast_of_comparable h, Ordering.swap_eq_eq]
  · rw [prefixLast_of_not_comparable h]

end PostgressRs.Lib.PrefixOrder
