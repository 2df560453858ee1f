import Mathlib.Data.List.Perm.Basic
import Mathlib.Data.List.Lex
import Mathlib.Order.Lattice

/-!
Binary search in a sorted vector, as `slice::binary_search_by` does it, and
insertion at the position it finds.  Byte strings are ordered lexicographically.
-/

namespace PostgressRs.Lib.SortedSearch

instance linearOrderUInt8 : LinearOrder UInt8 where
  le_refl := UInt8.le_refl
  le_trans _ _ _ := UInt8.le_trans
  lt_iff_le_not_ge a b := by
    simp only [UInt8.lt_iff_toNat_lt, UInt8.le_iff_toNat_le]
    omega
  le_antisymm _ _ := UInt8.le_antisymm
  le_total := UInt8.le_total
  toDecidableLE := inferInstance
  toDecidableEq := inferInstance
  toDecidableLT := inferInstance

variable {α : Type}

/-- The halving loop: the last position probed that is not beyond the target. -/
def probe (cmp : α → Ordering) (xs : List α) (base size : Nat) : Nat :=
  if 1 < size then
    match xs[base + size / 2]? with
    | some x =>
        if cmp x = .gt then probe cmp xs base (size - size / 2)
        else probe cmp xs (base + size / 2) (size - size / 2)
    | none => base
  else base
termination_by size
decreasing_by all_goals omega

/-- `binary_search_by`: `ok` is the index of a match, `error` the index where a
match could be inserted. -/
def binarySearchBy (cmp : α → Ordering) (xs : List α) : Except Nat Nat :=
  let base := probe cmp xs 0 xs.length
  match xs[base]? with
  | none => .error 0
  | some x =>
      match cmp x with
      | .eq => .ok base
      | .lt => .error (base + 1)
      | .gt => .error base

/-- `unwrap_or_else(|p| p)`. -/
def position : Except Nat Nat → Nat
  | .ok pos => pos
  | .error pos => pos

/-- Elements below the target come first, elements beyond it last. -/
def Partitioned (cmp : α → Ordering) (xs : List α) : Prop :=
  xs.Pairwise fun a b => (cmp a = .gt → cmp b = .gt) ∧ (cmp b = .lt → cmp a = .lt)

theorem Partitioned.getElem? {cmp : α → Ordering} {xs : List α} (h : Partitioned cmp xs)
    {i j : Nat} {a b : α} (ha : xs[i]? = some a) (hb : xs[j]? = some b) (hij : i ≤ j) :
    (cmp a = .gt → cmp b = .gt) ∧ (cmp b = .lt → cmp a = .lt) := by
  rcases Nat.lt_or_eq_of_le hij with hlt | rfl
  · obtain ⟨hi, rfl⟩ := List.getElem?_eq_some_iff.mp ha
    obtain ⟨hj, rfl⟩ := List.getElem?_eq_some_iff.mp hb
    exact List.pairwise_iff_getElem.mp h i j hi hj hlt
  · rw [ha] at hb
    cases hb
    exact ⟨id, id⟩

/-- What the loop keeps: nothing before `base` and everything from
`base + size` on is beyond the target. -/
structure Bracketed (cmp : α → Ordering) (xs : List α) (base size : Nat) : Prop where
  size_pos : 0 < size
  le_length : base + size ≤ xs.length
  left : ∀ x, xs[base]? = some x → base ≠ 0 → cmp x ≠ .gt
  right : ∀ (i : Nat) x, base + size ≤ i → xs[i]? = some x → cmp x = .gt

theorem bracketed_probe {cmp : α → Ordering} {xs : List α} (hxs : Partitioned cmp xs)
    {base size : Nat} (h : Bracketed cmp xs base size) :
    Bracketed cmp xs (probe cmp xs base size) 1 := by
  induction size using Nat.strong_induction_on generalizing base with
  | _ size ih =>
      rw [probe]
      have hpos := h.size_pos
      have hle := h.le_length
      split
      · rename_i hsize
        obtain ⟨x, hx⟩ : ∃ x, xs[base + size / 2]? = some x :=
          ⟨xs[base + size / 2], List.getElem?_eq_getElem (by omega)⟩
        rw [hx]
        simp only
        split
        · rename_i hgt
          refine ih (size - size / 2) (by omega) ⟨by omega, by omega, h.left, ?_⟩
          intro i y hi hy
          exact (hxs.getElem? hx hy (by omega)).1 hgt
        · rename_i hgt
          refine ih (size - size / 2) (by omega) ⟨by omega, by omega, ?_, ?_⟩
          · intro y hy _
            rw [hx] at hy
            cases hy
            exact hgt
          · intro i y hi hy
            exact h.right i y (by omega) hy
      · have hone : size = 1 := by omega
        rw [← hone]
        exact h

/-- The position found: nothing before it is beyond the target, nothing from it
on is below. -/
theorem binarySearchBy_spec {cmp : α → Ordering} {xs : List α} (hxs : Partitioned cmp xs) :
    position (binarySearchBy cmp xs) ≤ xs.length ∧
      (∀ (i : Nat) x, i < position (binarySearchBy cmp xs) → xs[i]? = some x → cmp x ≠ .gt) ∧
      ∀ (i : Nat) x, position (binarySearchBy cmp xs) ≤ i → xs[i]? = some x → cmp x ≠ .lt := by
  rcases List.eq_nil_or_concat xs with rfl | ⟨front, last, hconcat⟩
  · simp [binarySearchBy, position]
  have hpos : 0 < xs.length := by simp [hconcat]
  have hbracket : Bracketed cmp xs (probe cmp xs 0 xs.length) 1 := by
    refine bracketed_probe hxs ⟨hpos, by omega, fun _ _ h => absurd rfl h, ?_⟩
    intro i x hi hx
    have hlt := (List.getElem?_eq_some_iff.mp hx).1
    omega
  unfold binarySearchBy
  generalize probe cmp xs 0 xs.length = base at hbracket ⊢
  have hlt := hbracket.le_length
  obtain ⟨x, hx⟩ : ∃ x, xs[base]? = some x := ⟨xs[base], List.getElem?_eq_getElem (by omega)⟩
  have hbefore : cmp x ≠ .gt → ∀ (i : Nat) y, i ≤ base → xs[i]? = some y → cmp y ≠ .gt := by
    intro hne i y hi hy hgt
    exact hne ((hxs.getElem? hy hx hi).1 hgt)
  have hafter : cmp x ≠ .lt → ∀ (i : Nat) y, base ≤ i → xs[i]? = some y → cmp y ≠ .lt := by
    intro hne i y hi hy hltc
    exact hne ((hxs.getElem? hx hy hi).2 hltc)
  simp only [hx]
  cases hcmp : cmp x with
  | eq =>
      refine ⟨Nat.le_of_succ_le hlt, ?_, hafter (by rw [hcmp]; decide)⟩
      intro i y hi
      exact hbefore (by rw [hcmp]; decide) i y (Nat.le_of_lt hi)
  | lt =>
      refine ⟨hlt, ?_, ?_⟩
      · intro i y hi
        exact hbefore (by rw [hcmp]; decide) i y (Nat.le_of_lt_succ hi)
      · intro i y hi hy
        rw [hbracket.right i y hi hy]
        decide
  | gt =>
      have hzero : base = 0 := by
        by_contra hne
        exact hbracket.left x hx hne hcmp
      refine ⟨Nat.le_of_succ_le hlt, ?_, hafter (by rw [hcmp]; decide)⟩
      intro i y hi
      simp only [position, hzero] at hi
      omega

theorem insertIdx_eq_append {xs : List α} (x : α) {pos : Nat} (hpos : pos ≤ xs.length) :
    xs.insertIdx pos x = xs.take pos ++ x :: xs.drop pos := by
  induction xs generalizing pos with
  | nil =>
      have hzero : pos = 0 := by simpa using hpos
      subst hzero
      rfl
  | cons y ys ih =>
      cases pos with
      | zero => rfl
      | succ pos => simp [ih (by simpa using hpos)]

section Insert

variable {κ : Type} [LinearOrder κ] (key : α → κ)

theorem partitioned_of_sorted {xs : List α} (h : xs.Pairwise fun a b => key a ≤ key b) (k : κ) :
    Partitioned (fun x => compare (key x) k) xs := by
  apply h.imp
  intro a b hab
  simp only [compare_gt_iff_gt, compare_lt_iff_lt]
  exact ⟨fun hgt => lt_of_lt_of_le hgt hab, fun hlt => lt_of_le_of_lt hab hlt⟩

/-- Insertion where a search for the key ends. -/
def insertByKey (xs : List α) (x : α) : List α :=
  xs.insertIdx (position (binarySearchBy (fun y => compare (key y) (key x)) xs)) x

theorem insertByKey_perm {xs : List α} (h : xs.Pairwise fun a b => key a ≤ key b) (x : α) :
    (insertByKey key xs x).Perm (x :: xs) :=
  List.perm_insertIdx x xs (binarySearchBy_spec (partitioned_of_sorted key h (key x))).1

theorem insertByKey_sorted {xs : List α} (h : xs.Pairwise fun a b => key a ≤ key b) (x : α) :
    (insertByKey key xs x).Pairwise fun a b => key a ≤ key b := by
  obtain ⟨hle, hbefore, hafter⟩ := binarySearchBy_spec (partitioned_of_sorted key h (key x))
  unfold insertByKey
  generalize position (binarySearchBy (fun y => compare (key y) (key x)) xs) = pos at *
  simp only [ne_eq, compare_gt_iff_gt, compare_lt_iff_lt, not_lt] at hbefore hafter
  rw [insertIdx_eq_append x hle, List.pairwise_append, List.pairwise_cons]
  refine ⟨h.sublist (List.take_sublist _ _), ⟨?_, h.sublist (List.drop_sublist _ _)⟩, ?_⟩
  · intro y hy
    obtain ⟨i, hi⟩ := List.mem_iff_getElem?.mp hy
    rw [List.getElem?_drop] at hi
    exact hafter (pos + i) y (Nat.le_add_right _ _) hi
  · intro a ha b hb
    obtain ⟨i, hi⟩ := List.mem_iff_getElem?.mp ha
    obtain ⟨hlt, hi⟩ : i < pos ∧ xs[i]? = some a := by
      rw [List.getElem?_take] at hi
      split at hi
      · exact ⟨by assumption, hi⟩
      · simp at hi
    rcases List.mem_cons.mp hb with rfl | hb
    · exact hbefore i a hlt hi
    · obtain ⟨j, hj⟩ := List.mem_iff_getElem?.mp hb
      rw [List.getElem?_drop] at hj
      exact le_trans (hbefore i a hlt hi) (hafter (pos + j) b (Nat.le_add_right _ _) hj)

end Insert

end PostgressRs.Lib.SortedSearch
