import Mathlib.Algebra.BigOperators.Group.Multiset.Basic
import Mathlib.Tactic.Linarith
import Mathlib.Tactic.LinearCombination
import Mathlib.Tactic.Ring
import PostgressRs.Executor.HashJoin

/-!
When the two join algorithms give the same rows (`src/executor/select/algorithms.rs`).
-/

namespace PostgressRs.Executor.JoinAgreement

open PostgressRs.Executor.Evaluation
open PostgressRs.Executor.HashJoin
open PostgressRs.Executor.HeapAccess (Row)
open PostgressRs.Executor.Joins
open PostgressRs.Executor.MergeJoin
open PostgressRs.Lib.ThetaJoin
open PostgressRs.Sql.Ast
open PostgressRs.Types

section Weights

/-- The fields that are not empty. -/
def weight (row : List String) : Nat := row.countP (· ≠ "")

theorem weight_append (row row' : List String) :
    weight (row ++ row') = weight row + weight row' := List.countP_append

theorem weight_blanks (count : Nat) : weight (blanks count) = 0 := by
  apply List.countP_eq_zero.mpr
  intro s hs
  rw [List.eq_of_mem_replicate hs]
  decide

theorem length_blanks (count : Nat) : (blanks count).length = count := List.length_replicate

theorem eq_blanks {row : List String} (hweight : weight row = 0) : row = blanks row.length := by
  apply List.eq_replicate_iff.mpr
  refine ⟨rfl, ?_⟩
  intro s hs
  have hblank := List.countP_eq_zero.mp hweight s hs
  simpa using hblank

variable {s t : Multiset (List String)} {row : List String} {count : Nat}

theorem sum_append_right (f : List String → Nat) (hf : ∀ a b, f (a ++ b) = f a + f b)
    (row : List String) :
    ((s.map (· ++ row)).map f).sum = (s.map f).sum + s.card * f row := by
  rw [Multiset.map_map]
  simp only [Function.comp_def, hf, Multiset.sum_map_add, Multiset.map_const',
    Multiset.sum_replicate, smul_eq_mul]

theorem sum_append_left (f : List String → Nat) (hf : ∀ a b, f (a ++ b) = f a + f b)
    (row : List String) :
    ((s.map (row ++ ·)).map f).sum = s.card * f row + (s.map f).sum := by
  rw [Multiset.map_map]
  simp only [Function.comp_def, hf, Multiset.sum_map_add, Multiset.map_const',
    Multiset.sum_replicate, smul_eq_mul]

/-- Rows that look padded were put together with blanks. -/
theorem eq_blanks_of_append_right (hs : s ≠ 0)
    (h : s.map (· ++ row) = s.map (· ++ blanks count)) : row = blanks count := by
  have hcard : 0 < s.card := Multiset.card_pos.mpr hs
  have hsum (f : List String → Nat) (hf : ∀ a b, f (a ++ b) = f a + f b) :
      f row = f (blanks count) := by
    have hboth := congrArg (fun rows => (rows.map f).sum) h
    change ((s.map (· ++ row)).map f).sum = ((s.map (· ++ blanks count)).map f).sum at hboth
    rw [sum_append_right f hf, sum_append_right f hf] at hboth
    exact Nat.eq_of_mul_eq_mul_left hcard (Nat.add_left_cancel hboth)
  have hlength := hsum List.length fun a b => List.length_append
  rw [length_blanks] at hlength
  rw [eq_blanks ((hsum weight weight_append).trans (weight_blanks count)), hlength]

theorem eq_blanks_of_append_left (hs : s ≠ 0)
    (h : s.map (row ++ ·) = s.map (blanks count ++ ·)) : row = blanks count := by
  have hcard : 0 < s.card := Multiset.card_pos.mpr hs
  have hsum (f : List String → Nat) (hf : ∀ a b, f (a ++ b) = f a + f b) :
      f row = f (blanks count) := by
    have hboth := congrArg (fun rows => (rows.map f).sum) h
    change ((s.map (row ++ ·)).map f).sum = ((s.map (blanks count ++ ·)).map f).sum at hboth
    rw [sum_append_left f hf, sum_append_left f hf] at hboth
    exact Nat.eq_of_mul_eq_mul_left hcard (Nat.add_right_cancel hboth)
  have hlength := hsum List.length fun a b => List.length_append
  rw [length_blanks] at hlength
  rw [eq_blanks ((hsum weight weight_append).trans (weight_blanks count)), hlength]

end Weights

section Crossed

/-- Every row of one bag with every row of another. -/
def crossed (left right : Multiset (List String)) : Multiset (List String) :=
  left.bind fun row => right.map (row ++ ·)

variable {left left' right right' : Multiset (List String)}

theorem crossed_add_left :
    crossed (left + left') right = crossed left right + crossed left' right :=
  Multiset.add_bind _ _ _

theorem crossed_add_right :
    crossed left (right + right') = crossed left right + crossed left right' := by
  rw [crossed, crossed, crossed, ← Multiset.bind_add]
  simp only [Multiset.map_add]

theorem crossed_zero_right : crossed left 0 = 0 := by
  rw [crossed]
  simp only [Multiset.map_zero, Multiset.bind_zero]

theorem crossed_singleton_left (row : List String) :
    crossed {row} right = right.map (row ++ ·) := Multiset.singleton_bind _ _

theorem crossed_singleton_right (row : List String) :
    crossed left {row} = left.map (· ++ row) := by
  rw [crossed]
  simp only [Multiset.map_singleton]
  exact Multiset.bind_singleton left (· ++ row)

theorem card_crossed : (crossed left right).card = left.card * right.card := by
  rw [crossed, Multiset.card_bind]
  simp only [Function.comp_def, Multiset.card_map, Multiset.map_const', Multiset.sum_replicate,
    smul_eq_mul]

end Crossed

section Padded

/-- Two blank rows on each side, of which the pairs are as wide as the padded rows are. -/
def TwoByTwo (leftCount rightCount : Nat) (left right : Multiset (List String)) : Prop :=
  ∃ s t, s + t = leftCount + rightCount ∧ left = {blanks leftCount, blanks s} ∧
    right = {blanks rightCount, blanks t}

theorem blanks_append (m n : Nat) : blanks m ++ blanks n = blanks (m + n) :=
  List.replicate_append_replicate

theorem crossed_pairs (a b c d : List String) :
    crossed {a, b} {c, d} = {a ++ c, a ++ d, b ++ c, b ++ d} := by
  rw [crossed, Multiset.insert_eq_cons, Multiset.cons_bind, Multiset.singleton_bind]
  rfl

/-- Sums of the first three powers that agree leave a zero in each of two pairs. -/
theorem zeros_of_power_sums {s u₁ u₂ v₁ v₂ : ℤ}
    (h : ∀ k : Nat, (s + u₁) ^ k + (s + u₂) ^ k + ((s + v₁) ^ k + (s + v₂) ^ k) =
      (s + (u₁ + v₁)) ^ k + (s + (u₁ + v₂)) ^ k + ((s + (u₂ + v₁)) ^ k + (s + (u₂ + v₂)) ^ k)) :
    u₁ + u₂ + (v₁ + v₂) = 0 ∧ u₁ * u₂ = 0 ∧ v₁ * v₂ = 0 := by
  have h₁ := h 1
  have h₂ := h 2
  have h₃ := h 3
  have hsum : u₁ + u₂ + (v₁ + v₂) = 0 := by linarith
  obtain rfl : v₂ = -(u₁ + u₂ + v₁) := by linarith
  have hproducts : u₁ * u₂ + v₁ * -(u₁ + u₂ + v₁) = 0 := by
    have hdouble : 2 * (u₁ * u₂ + v₁ * -(u₁ + u₂ + v₁)) = 0 := by linear_combination h₂
    linarith
  have hcubes : 6 * (u₁ * u₂ * (u₁ + u₂)) = 0 := by
    linear_combination 3 * s * h₂ - h₃ + 3 * (u₁ + u₂) * hproducts
  refine ⟨hsum, ?_⟩
  rcases mul_eq_zero.mp (show u₁ * u₂ * (u₁ + u₂) = 0 by linarith) with he | hU
  · exact ⟨he, by linarith⟩
  · obtain rfl : u₂ = -u₁ := by linarith
    have hsquares : u₁ ^ 2 + v₁ ^ 2 = 0 := by linear_combination -hproducts
    have hu : u₁ = 0 :=
      pow_eq_zero_iff two_ne_zero |>.mp (by linarith [sq_nonneg u₁, sq_nonneg v₁])
    have hv : v₁ = 0 :=
      pow_eq_zero_iff two_ne_zero |>.mp (by linarith [sq_nonneg u₁, sq_nonneg v₁])
    rw [hu, hv]
    exact ⟨by ring, by ring⟩

/-- The first three sums of powers determine the lengths. -/
theorem lengths_of_power_sums {x₁ x₂ y₁ y₂ p q : ℤ}
    (h : ∀ k : Nat, (x₁ + p) ^ k + (x₂ + p) ^ k + ((q + y₁) ^ k + (q + y₂) ^ k) =
      (x₁ + y₁) ^ k + (x₁ + y₂) ^ k + ((x₂ + y₁) ^ k + (x₂ + y₂) ^ k)) :
    x₁ + x₂ + (y₁ + y₂) = 2 * (q + p) ∧ (x₁ = q ∨ x₂ = q) ∧ (y₁ = p ∨ y₂ = p) := by
  have hboth : ∀ x y : ℤ, x + y = q + p + (x - q + (y - p)) := fun x y => by ring
  have hleft : ∀ x : ℤ, x + p = q + p + (x - q) := fun x => by ring
  have hright : ∀ y : ℤ, q + y = q + p + (y - p) := fun y => by ring
  have hshifted : ∀ k : Nat,
      (q + p + (x₁ - q)) ^ k + (q + p + (x₂ - q)) ^ k +
          ((q + p + (y₁ - p)) ^ k + (q + p + (y₂ - p)) ^ k) =
        (q + p + (x₁ - q + (y₁ - p))) ^ k + (q + p + (x₁ - q + (y₂ - p))) ^ k +
          ((q + p + (x₂ - q + (y₁ - p))) ^ k + (q + p + (x₂ - q + (y₂ - p))) ^ k) := by
    intro k
    rw [← hleft x₁, ← hleft x₂, ← hright y₁, ← hright y₂, ← hboth, ← hboth, ← hboth, ← hboth]
    exact h k
  obtain ⟨hsum, hu, hv⟩ := zeros_of_power_sums hshifted
  refine ⟨by linarith, ?_, ?_⟩
  · exact (mul_eq_zero.mp hu).imp sub_eq_zero.mp sub_eq_zero.mp
  · exact (mul_eq_zero.mp hv).imp sub_eq_zero.mp sub_eq_zero.mp

theorem pair_of_length {a b : List String} (count : Nat) (ha : weight a = 0)
    (hb : weight b = 0) (h : a.length = count ∨ b.length = count) :
    ∃ s, s + count = a.length + b.length ∧
      ({a, b} : Multiset (List String)) = {blanks count, blanks s} := by
  rcases h with rfl | rfl
  · refine ⟨b.length, Nat.add_comm _ _, ?_⟩
    rw [← eq_blanks ha, ← eq_blanks hb]
  · refine ⟨a.length, rfl, ?_⟩
    rw [← eq_blanks ha, ← eq_blanks hb]
    exact Multiset.pair_comm a b

theorem padded_eq_crossed_of_twoByTwo {left right : Multiset (List String)}
    {leftCount rightCount : Nat} (h : TwoByTwo leftCount rightCount left right) :
    left.map (· ++ blanks rightCount) + right.map (blanks leftCount ++ ·) =
      crossed left right := by
  obtain ⟨s, t, hst, rfl, rfl⟩ := h
  rw [crossed_pairs]
  simp only [Multiset.insert_eq_cons, Multiset.map_cons, Multiset.map_singleton, blanks_append,
    hst]
  rw [add_comm s rightCount]
  simp only [← Multiset.singleton_add]
  abel

theorem padded_eq_crossed_iff {left right : Multiset (List String)} {leftCount rightCount : Nat}
    (hleft : left ≠ 0) (hright : right ≠ 0) :
    left.map (· ++ blanks rightCount) + right.map (blanks leftCount ++ ·) =
        crossed left right ↔
      TwoByTwo leftCount rightCount left right := by
  constructor
  · intro h
    have hcard := congrArg Multiset.card h
    rw [Multiset.card_add, Multiset.card_map, Multiset.card_map, card_crossed] at hcard
    have hlpos : 0 < left.card := Multiset.card_pos.mpr hleft
    have hrpos : 0 < right.card := Multiset.card_pos.mpr hright
    have hprod : (left.card - 1 : ℤ) * (right.card - 1) = 1 := by
      have hcard' : (left.card + right.card : ℤ) = left.card * right.card := by exact_mod_cast hcard
      linear_combination -hcard'
    have htwo : left.card = 2 ∧ right.card = 2 := by
      rcases Int.eq_one_or_neg_one_of_mul_eq_one hprod with hone | hone
      · rw [hone] at hprod
        omega
      · omega
    obtain ⟨a, b, rfl⟩ := Multiset.card_eq_two.mp htwo.1
    obtain ⟨c, d, rfl⟩ := Multiset.card_eq_two.mp htwo.2
    rw [crossed_pairs] at h
    have hweight := congrArg (fun rows => (rows.map weight).sum) h
    simp only [Multiset.insert_eq_cons, Multiset.map_cons, Multiset.map_singleton,
      Multiset.map_add, Multiset.sum_add, Multiset.sum_cons, Multiset.sum_singleton,
      weight_append, weight_blanks] at hweight
    have hlengths (k : Nat) := congrArg
      (fun rows : Multiset (List String) => (rows.map fun row => (row.length : ℤ) ^ k).sum) h
    simp only [Multiset.insert_eq_cons, Multiset.map_cons, Multiset.map_singleton,
      Multiset.map_add, Multiset.sum_add, Multiset.sum_cons, Multiset.sum_singleton,
      List.length_append, length_blanks, Nat.cast_add] at hlengths
    obtain ⟨hsum, ha, hc⟩ :=
      lengths_of_power_sums fun k => (hlengths k).trans (by ring)
    have hblank : weight a = 0 ∧ weight b = 0 ∧ weight c = 0 ∧ weight d = 0 := by omega
    obtain ⟨s, hs, hleft⟩ := pair_of_length leftCount hblank.1 hblank.2.1
      (by omega)
    obtain ⟨t, ht, hright⟩ := pair_of_length rightCount hblank.2.2.1 hblank.2.2.2
      (by omega)
    exact ⟨s, t, by omega, hleft, hright⟩
  · exact padded_eq_crossed_of_twoByTwo

end Padded

section Parts

variable {A₀ A₁ B₀ B₁ : Multiset (List String)} {p q : Nat}

theorem crossed_parts_iff (hA : A₀ + A₁ ≠ 0) (hB : B₀ + B₁ ≠ 0) :
    crossed A₀ B₀ = crossed (A₀ + A₁) (B₀ + B₁) ↔ A₁ = 0 ∧ B₁ = 0 := by
  constructor
  · intro h
    have hcard := congrArg Multiset.card h
    rw [card_crossed, card_crossed, Multiset.card_add, Multiset.card_add] at hcard
    have hzero : A₀.card * B₁.card + A₁.card * (B₀.card + B₁.card) = 0 := by linarith
    rw [Nat.add_eq_zero_iff, mul_eq_zero, mul_eq_zero, ← Multiset.card_add,
      Multiset.card_eq_zero, Multiset.card_eq_zero, Multiset.card_eq_zero,
      Multiset.card_eq_zero] at hzero
    have hA₁ : A₁ = 0 := hzero.2.resolve_right hB
    refine ⟨hA₁, hzero.1.resolve_left ?_⟩
    rintro rfl
    exact hA (by rw [hA₁, add_zero])
  · rintro ⟨rfl, rfl⟩
    rw [add_zero, add_zero]

theorem left_parts_iff (hA : A₀ + A₁ ≠ 0) (hB : B₀ + B₁ ≠ 0) :
    crossed A₀ B₀ + (if B₀ = 0 then A₀.map (· ++ blanks p) else 0) =
        crossed (A₀ + A₁) (B₀ + B₁) ↔
      A₁ = 0 ∧ (B₁ = 0 ∨ B₀ + B₁ = {blanks p}) := by
  rcases eq_or_ne B₀ 0 with rfl | hB₀
  · rw [zero_add] at hB
    rw [if_pos rfl, crossed_zero_right, zero_add, zero_add, or_iff_right hB]
    constructor
    · intro h
      have hcard := congrArg Multiset.card h
      rw [card_crossed, Multiset.card_map, Multiset.card_add] at hcard
      have hpos : 0 < B₁.card := Multiset.card_pos.mpr hB
      have hA₁ : A₁ = 0 := Multiset.card_eq_zero.mp (by nlinarith)
      subst hA₁
      rw [add_zero] at hA h
      rw [Multiset.card_zero, add_zero] at hcard
      have hone : B₁.card = 1 := by
        apply Nat.eq_of_mul_eq_mul_left (Multiset.card_pos.mpr hA)
        rw [← hcard, mul_one]
      obtain ⟨row, rfl⟩ := Multiset.card_eq_one.mp hone
      rw [crossed_singleton_right] at h
      exact ⟨rfl, congrArg _ (eq_blanks_of_append_right hA h.symm)⟩
    · rintro ⟨rfl, rfl⟩
      rw [add_zero, crossed_singleton_right]
  · rw [if_neg hB₀, add_zero, crossed_parts_iff hA hB]
    constructor
    · rintro ⟨hA₁, hB₁⟩
      exact ⟨hA₁, .inl hB₁⟩
    · rintro ⟨hA₁, hB₁ | hone⟩
      · exact ⟨hA₁, hB₁⟩
      · have hcard := congrArg Multiset.card hone
        rw [Multiset.card_add, Multiset.card_singleton] at hcard
        have hpos : 0 < B₀.card := Multiset.card_pos.mpr hB₀
        exact ⟨hA₁, Multiset.card_eq_zero.mp (by omega)⟩

theorem right_parts_iff (hA : A₀ + A₁ ≠ 0) (hB : B₀ + B₁ ≠ 0) :
    crossed A₀ B₀ + (if A₀ = 0 then B₀.map (blanks q ++ ·) else 0) + B₁.map (blanks q ++ ·) =
        crossed (A₀ + A₁) (B₀ + B₁) ↔
      A₁ = 0 ∧ B₁ = 0 ∨ A₀ + A₁ = {blanks q} := by
  rcases eq_or_ne A₀ 0 with rfl | hA₀
  · have hpadded : crossed 0 B₀ + B₀.map (blanks q ++ ·) + B₁.map (blanks q ++ ·) =
        (B₀ + B₁).map (blanks q ++ ·) := by
      rw [Multiset.map_add]
      exact congrArg (· + _) (zero_add _)
    rw [zero_add] at hA
    rw [if_pos rfl, hpadded, zero_add, or_iff_right (fun h => hA h.1)]
    constructor
    · intro h
      have hcard := congrArg Multiset.card h
      rw [card_crossed, Multiset.card_map] at hcard
      have hone : A₁.card = 1 := by
        apply Nat.eq_of_mul_eq_mul_right (Multiset.card_pos.mpr hB)
        rw [← hcard, one_mul]
      obtain ⟨row, rfl⟩ := Multiset.card_eq_one.mp hone
      rw [crossed_singleton_left] at h
      exact congrArg _ (eq_blanks_of_append_left hB h.symm)
    · rintro rfl
      rw [crossed_singleton_left]
  · rw [if_neg hA₀, add_zero]
    have hpos : 0 < A₀.card := Multiset.card_pos.mpr hA₀
    constructor
    · intro h
      have hcard := congrArg Multiset.card h
      rw [Multiset.card_add, card_crossed, card_crossed, Multiset.card_map, Multiset.card_add,
        Multiset.card_add] at hcard
      have hA₁ : A₁ = 0 := by
        have hprod : A₁.card * (B₀ + B₁).card = 0 := by
          rw [Multiset.card_add]
          nlinarith
        rw [mul_eq_zero, Multiset.card_eq_zero, Multiset.card_eq_zero] at hprod
        exact hprod.resolve_right hB
      subst hA₁
      rcases eq_or_ne B₁ 0 with rfl | hB₁
      · exact .inl ⟨rfl, rfl⟩
      · have hone : A₀.card = 1 := by
          apply Nat.eq_of_mul_eq_mul_right (Multiset.card_pos.mpr hB₁)
          rw [Multiset.card_zero, add_zero, mul_add] at hcard
          omega
        obtain ⟨row, rfl⟩ := Multiset.card_eq_one.mp hone
        rw [add_zero, crossed_add_right, crossed_singleton_left, crossed_singleton_left] at h
        rw [eq_blanks_of_append_left hB₁ (add_left_cancel h).symm]
        exact .inr rfl
    · rintro (⟨rfl, rfl⟩ | hone)
      · rw [add_zero, add_zero, Multiset.map_zero, add_zero]
      · have hcard := congrArg Multiset.card hone
        rw [Multiset.card_add, Multiset.card_singleton] at hcard
        have hA₁ : A₁ = 0 := Multiset.card_eq_zero.mp (by omega)
        subst hA₁
        rw [add_zero] at hone ⊢
        rw [hone, crossed_add_right, crossed_singleton_left, crossed_singleton_left]

/-- What the padded rows come to when no row has a partner. -/
theorem full_parts_disjoint (hdisjoint : A₀ = 0 ∨ B₀ = 0) :
    crossed A₀ B₀ + (if B₀ = 0 then A₀.map (· ++ blanks p) else 0) +
        (if A₀ = 0 then B₀.map (blanks q ++ ·) else 0) + A₁.map (· ++ blanks p) +
        B₁.map (blanks q ++ ·) =
      (A₀ + A₁).map (· ++ blanks p) + (B₀ + B₁).map (blanks q ++ ·) := by
  have hcrossed : crossed A₀ B₀ = 0 := by
    rcases hdisjoint with rfl | rfl
    · rfl
    · exact crossed_zero_right
  have hA₀ : (if B₀ = 0 then A₀.map (· ++ blanks p) else 0) = A₀.map (· ++ blanks p) := by
    split
    · rfl
    · rename_i hB₀
      rw [hdisjoint.resolve_right hB₀, Multiset.map_zero]
  have hB₀ : (if A₀ = 0 then B₀.map (blanks q ++ ·) else 0) = B₀.map (blanks q ++ ·) := by
    split
    · rfl
    · rename_i hA₀
      rw [hdisjoint.resolve_left hA₀, Multiset.map_zero]
  rw [hcrossed, hA₀, hB₀, Multiset.map_add, Multiset.map_add]
  abel

theorem full_parts_iff (hA : A₀ + A₁ ≠ 0) (hB : B₀ + B₁ ≠ 0) :
    crossed A₀ B₀ + (if B₀ = 0 then A₀.map (· ++ blanks p) else 0) +
        (if A₀ = 0 then B₀.map (blanks q ++ ·) else 0) + A₁.map (· ++ blanks p) +
        B₁.map (blanks q ++ ·) = crossed (A₀ + A₁) (B₀ + B₁) ↔
      A₁ = 0 ∧ B₁ = 0 ∨ (A₁ = 0 ∧ A₀ = {blanks q} ∧ B₀ ≠ 0) ∨
        (B₁ = 0 ∧ B₀ = {blanks p} ∧ A₀ ≠ 0) ∨
        (A₀ = 0 ∨ B₀ = 0) ∧ TwoByTwo q p (A₀ + A₁) (B₀ + B₁) := by
  by_cases hdisjoint : A₀ = 0 ∨ B₀ = 0
  · rw [full_parts_disjoint hdisjoint, padded_eq_crossed_iff hA hB]
    constructor
    · intro h
      exact .inr (.inr (.inr ⟨hdisjoint, h⟩))
    · rintro (⟨rfl, rfl⟩ | ⟨rfl, rfl, hne⟩ | ⟨rfl, rfl, hne⟩ | ⟨-, h⟩)
      · rw [add_zero] at hA hB
        exact absurd hdisjoint (not_or.mpr ⟨hA, hB⟩)
      · exact absurd hdisjoint (not_or.mpr ⟨Multiset.singleton_ne_zero _, hne⟩)
      · exact absurd hdisjoint (not_or.mpr ⟨hne, Multiset.singleton_ne_zero _⟩)
      · exact h
  · obtain ⟨hA₀, hB₀⟩ := not_or.mp hdisjoint
    rw [if_neg hB₀, if_neg hA₀, add_zero, add_zero, iff_false_intro hdisjoint, false_and, or_false]
    constructor
    · intro h
      have hcard := congrArg Multiset.card h
      simp only [Multiset.card_add, card_crossed, Multiset.card_map] at hcard
      have hApos : 0 < A₀.card := Multiset.card_pos.mpr hA₀
      have hBpos : 0 < B₀.card := Multiset.card_pos.mpr hB₀
      rcases eq_or_ne A₁ 0 with rfl | hA₁
      · rcases eq_or_ne B₁ 0 with rfl | hB₁
        · exact .inl ⟨rfl, rfl⟩
        · have hone : A₀.card = 1 := by
            apply Nat.eq_of_mul_eq_mul_right (Multiset.card_pos.mpr hB₁)
            rw [Multiset.card_zero, add_zero, add_zero, mul_add] at hcard
            omega
          obtain ⟨row, rfl⟩ := Multiset.card_eq_one.mp hone
          rw [Multiset.map_zero, add_zero, add_zero, crossed_add_right, crossed_singleton_left,
            crossed_singleton_left] at h
          have hrow := eq_blanks_of_append_left hB₁ (add_left_cancel h).symm
          exact .inr (.inl ⟨rfl, congrArg _ hrow, hB₀⟩)
      · have hA₁pos : 0 < A₁.card := Multiset.card_pos.mpr hA₁
        have hB₁ : B₁ = 0 := by
          apply Multiset.card_eq_zero.mp
          nlinarith
        subst hB₁
        have hone : B₀.card = 1 := by
          apply Nat.eq_of_mul_eq_mul_left hA₁pos
          rw [Multiset.card_zero, add_zero, add_zero, add_mul] at hcard
          omega
        obtain ⟨row, rfl⟩ := Multiset.card_eq_one.mp hone
        rw [Multiset.map_zero, add_zero, add_zero, crossed_add_left, crossed_singleton_right,
          crossed_singleton_right] at h
        have hrow := eq_blanks_of_append_right hA₁ (add_left_cancel h).symm
        exact .inr (.inr ⟨rfl, congrArg _ hrow, hA₀⟩)
    · rintro (⟨rfl, rfl⟩ | ⟨rfl, rfl, -⟩ | ⟨rfl, rfl, -⟩)
      · simp only [add_zero, Multiset.map_zero]
      · rw [Multiset.map_zero, add_zero, add_zero, crossed_add_right, crossed_singleton_left,
          crossed_singleton_left]
      · rw [Multiset.map_zero, add_zero, add_zero, crossed_add_left, crossed_singleton_right,
          crossed_singleton_right]

end Parts

section Keys

variable [Scalars] (desc : Option TupleDesc)

/-- The rows whose key is empty or missing. -/
def blankKeyed (e : Expr) (rows : List Row) : Multiset (List String) :=
  (fieldsOf rows).filter fun row => (evaluateExpr row desc e).getD "" = ""

def emptyKeyed (e : Expr) (rows : List Row) : Multiset (List String) :=
  (fieldsOf rows).filter fun row => evaluateExpr row desc e = some ""

def lacking (e : Expr) (rows : List Row) : Multiset (List String) :=
  (fieldsOf rows).filter fun row => evaluateExpr row desc e = none

def otherKeyed (e : Expr) (rows : List Row) : Multiset (List String) :=
  (fieldsOf rows).filter fun row => ¬(evaluateExpr row desc e).getD "" = ""

variable {desc} {e : Expr} {rows : List Row} {row : List String}

theorem mem_emptyKeyed (h : row ∈ emptyKeyed desc e rows) : evaluateExpr row desc e = some "" :=
  (Multiset.mem_filter.mp h).2

theorem mem_lacking (h : row ∈ lacking desc e rows) : evaluateExpr row desc e = none :=
  (Multiset.mem_filter.mp h).2

theorem mem_blankKeyed (h : row ∈ blankKeyed desc e rows) :
    (evaluateExpr row desc e).getD "" = "" := (Multiset.mem_filter.mp h).2

theorem mem_otherKeyed (h : row ∈ otherKeyed desc e rows) :
    (evaluateExpr row desc e).getD "" ≠ "" := (Multiset.mem_filter.mp h).2

theorem blankKeyed_add_otherKeyed :
    blankKeyed desc e rows + otherKeyed desc e rows = fieldsOf rows :=
  Multiset.filter_add_not _ _

theorem emptyKeyed_add_lacking :
    emptyKeyed desc e rows + lacking desc e rows = blankKeyed desc e rows := by
  rw [emptyKeyed, lacking, Multiset.filter_add_filter]
  have hnone : (fieldsOf rows).filter (fun row =>
      evaluateExpr row desc e = some "" ∧ evaluateExpr row desc e = none) = 0 := by
    apply Multiset.filter_eq_nil.mpr
    rintro row - ⟨hsome, hnone⟩
    rw [hsome] at hnone
    cases hnone
  rw [hnone, add_zero]
  apply Multiset.filter_congr
  intro row _
  cases evaluateExpr row desc e with
  | none => simp
  | some key => simp

theorem lacking_eq_zero_of_blankKeyed (h : blankKeyed desc e rows = 0) :
    lacking desc e rows = 0 := by
  apply Multiset.le_zero.mp
  rw [← h, ← emptyKeyed_add_lacking]
  exact Multiset.le_add_left _ _

theorem emptyKeyed_eq_of_lacking (h : lacking desc e rows = 0) :
    emptyKeyed desc e rows = blankKeyed desc e rows := by
  rw [← emptyKeyed_add_lacking, h, add_zero]

end Keys

section Split

variable [Scalars] {desc : Option TupleDesc} {l r : Expr} {left right : List Row}

theorem keysEqual_of_keysMatch {row row' : List String} (h : KeysMatch desc l r row row') :
    KeysEqual desc l r row row' := congrArg (Option.getD · "") h.1

theorem keysMatch_of_keysEqual {row row' : List String} (h : KeysEqual desc l r row row')
    (hother : (evaluateExpr row desc l).getD "" ≠ "") : KeysMatch desc l r row row' := by
  rw [KeysEqual] at h
  rw [KeysMatch]
  cases hleft : evaluateExpr row desc l with
  | none =>
      rw [hleft] at hother
      exact absurd rfl hother
  | some key =>
      rw [hleft, Option.getD_some] at h hother
      cases hright : evaluateExpr row' desc r with
      | none =>
          rw [hright] at h
          exact absurd h hother
      | some key' =>
          rw [hright, Option.getD_some] at h
          exact ⟨congrArg some h, Option.some_ne_none key⟩

theorem separate_blank_other {m : List String → List String → Prop}
    (hm : ∀ row row', m row row' → KeysEqual desc l r row row') :
    Separate m (blankKeyed desc l left) (otherKeyed desc r right) := by
  intro row hrow row' hrow' h
  apply mem_otherKeyed hrow'
  rw [← hm row row' h]
  exact mem_blankKeyed hrow

theorem separate_other_blank {m : List String → List String → Prop}
    (hm : ∀ row row', m row row' → KeysEqual desc l r row row') :
    Separate m (otherKeyed desc l left) (blankKeyed desc r right) := by
  intro row hrow row' hrow' h
  apply mem_otherKeyed hrow
  rw [hm row row' h]
  exact mem_blankKeyed hrow'

/-- The left rows with a blank key that the hash join probes. -/
def probedBlank (desc : Option TupleDesc) (l : Expr) (joinType : JoinType) (left : List Row) :
    Multiset (List String) :=
  if joinType = .left then emptyKeyed desc l left else blankKeyed desc l left

theorem probedBlank_le (joinType : JoinType) :
    probedBlank desc l joinType left ≤ blankKeyed desc l left := by
  rw [probedBlank]
  split
  · rw [← emptyKeyed_add_lacking]
    exact Multiset.le_add_right _ _
  · exact le_rfl

theorem probedRows_eq (joinType : JoinType) :
    probedRows desc l joinType (fieldsOf left) =
      probedBlank desc l joinType left + otherKeyed desc l left := by
  rw [probedRows, probedBlank]
  split
  · rw [emptyKeyed, otherKeyed, Multiset.filter_add_filter]
    have hnone : (fieldsOf left).filter (fun row => evaluateExpr row desc l = some "" ∧
        ¬(evaluateExpr row desc l).getD "" = "") = 0 := by
      apply Multiset.filter_eq_nil.mpr
      rintro row - ⟨hsome, hother⟩
      rw [hsome] at hother
      exact hother rfl
    rw [hnone, add_zero]
    apply Multiset.filter_congr
    intro row _
    cases evaluateExpr row desc l with
    | none => simp
    | some key => simp [em]
  · exact blankKeyed_add_otherKeyed.symm

/-- Only the rows with blank keys matter. -/
theorem joins_eq_iff_blank (joinType : JoinType) :
    fieldsOf (hashJoin desc left right (.binaryOp l .equals r) joinType) =
        fieldsOf (mergeJoin desc left right (.binaryOp l .equals r) joinType) ↔
      (rowsOuter joinType (firstWidth left) (rightColCount left right)).join (KeysMatch desc l r)
          (probedBlank desc l joinType left) (blankKeyed desc r right) =
        (rowsOuter joinType (firstWidth left) (rightColCount left right)).join
          (KeysEqual desc l r) (blankKeyed desc l left) (blankKeyed desc r right) := by
  have hsplit : blankKeyed desc r right + otherKeyed desc r right = fieldsOf right :=
    blankKeyed_add_otherKeyed
  have hsplit' : blankKeyed desc l left + otherKeyed desc l left = fieldsOf left :=
    blankKeyed_add_otherKeyed
  have hprobed : Separate (KeysMatch desc l r) (probedBlank desc l joinType left)
      (otherKeyed desc r right) := by
    intro row hrow
    have hblank := Multiset.mem_of_le (probedBlank_le joinType) hrow
    exact separate_blank_other (fun _ _ => keysEqual_of_keysMatch) row hblank
  have hothers : ∀ row ∈ otherKeyed desc l left, ∀ row' ∈ otherKeyed desc r right,
      KeysMatch desc l r row row' ↔ KeysEqual desc l r row row' := by
    intro row hrow row' _
    exact ⟨keysEqual_of_keysMatch, fun h => keysMatch_of_keysEqual h (mem_otherKeyed hrow)⟩
  rw [fieldsOf_hashJoin, fieldsOf_mergeJoin, probedRows_eq, ← hsplit, ← hsplit',
    Outer.join_add _ hprobed (separate_other_blank fun _ _ => keysEqual_of_keysMatch),
    Outer.join_add _ (separate_blank_other fun _ _ h => h) (separate_other_blank fun _ _ h => h),
    Outer.join_congr _ hothers]
  exact add_left_inj _

variable {outer : Outer (List String) (List String) (List String)}

theorem join_emptyKeyed (hcombine : outer.combine = (· ++ ·)) :
    outer.join (KeysMatch desc l r) (emptyKeyed desc l left) (emptyKeyed desc r right) =
      crossed (emptyKeyed desc l left) (emptyKeyed desc r right) +
        (if emptyKeyed desc r right = 0 then kept outer.leftAlone (emptyKeyed desc l left)
          else 0) +
        (if emptyKeyed desc l left = 0 then kept outer.rightAlone (emptyKeyed desc r right)
          else 0) := by
  rcases eq_or_ne (emptyKeyed desc l left) 0 with hleft | hleft
  · rw [hleft, if_pos rfl, Outer.join_zero_left, kept_zero, ite_self]
    exact (zero_add _).symm
  · rcases eq_or_ne (emptyKeyed desc r right) 0 with hright | hright
    · rw [hright, if_pos rfl, if_neg hleft, Outer.join_zero_right, crossed_zero_right, zero_add,
        add_zero]
    · have hcomplete : ∀ row ∈ emptyKeyed desc l left, ∀ row' ∈ emptyKeyed desc r right,
          KeysMatch desc l r row row' := by
        intro row hrow row' hrow'
        rw [KeysMatch, mem_emptyKeyed hrow, mem_emptyKeyed hrow']
        exact ⟨rfl, Option.some_ne_none _⟩
      rw [if_neg hright, if_neg hleft, add_zero, add_zero,
        Outer.join_complete _ hcomplete hleft hright, hcombine]
      rfl

theorem join_emptyKeyed_blankKeyed (hcombine : outer.combine = (· ++ ·)) :
    outer.join (KeysMatch desc l r) (emptyKeyed desc l left) (blankKeyed desc r right) =
      crossed (emptyKeyed desc l left) (emptyKeyed desc r right) +
        (if emptyKeyed desc r right = 0 then kept outer.leftAlone (emptyKeyed desc l left)
          else 0) +
        (if emptyKeyed desc l left = 0 then kept outer.rightAlone (emptyKeyed desc r right)
          else 0) + kept outer.rightAlone (lacking desc r right) := by
  have hleft : Separate (KeysMatch desc l r) (emptyKeyed desc l left) (lacking desc r right) := by
    rintro row hrow row' hrow' ⟨heq, hne⟩
    rw [heq] at hne
    exact hne (mem_lacking hrow')
  have hnone : Separate (KeysMatch desc l r) 0 (emptyKeyed desc r right) :=
    fun row hrow => absurd hrow (Multiset.notMem_zero row)
  have hsplit := outer.join_add hleft hnone
  rw [add_zero, emptyKeyed_add_lacking, Outer.join_zero_left, join_emptyKeyed hcombine] at hsplit
  exact hsplit

/-- A row without a key has no partner. -/
theorem join_blankKeyed (hcombine : outer.combine = (· ++ ·)) :
    outer.join (KeysMatch desc l r) (blankKeyed desc l left) (blankKeyed desc r right) =
      crossed (emptyKeyed desc l left) (emptyKeyed desc r right) +
        (if emptyKeyed desc r right = 0 then kept outer.leftAlone (emptyKeyed desc l left)
          else 0) +
        (if emptyKeyed desc l left = 0 then kept outer.rightAlone (emptyKeyed desc r right)
          else 0) +
        (kept outer.leftAlone (lacking desc l left) +
          kept outer.rightAlone (lacking desc r right)) := by
  have hleft : Separate (KeysMatch desc l r) (emptyKeyed desc l left) (lacking desc r right) := by
    rintro row hrow row' hrow' ⟨heq, hne⟩
    rw [heq] at hne
    exact hne (mem_lacking hrow')
  have hright (others : Multiset (List String)) :
      Separate (KeysMatch desc l r) (lacking desc l left) others := by
    rintro row hrow row' - ⟨-, hne⟩
    exact hne (mem_lacking hrow)
  rw [← emptyKeyed_add_lacking, ← emptyKeyed_add_lacking, Outer.join_add _ hleft (hright _),
    join_emptyKeyed hcombine, Outer.join_separate _ (hright _)]

/-- Rows with blank keys are all partners in the merge. -/
theorem join_blankKeyed_complete (hcombine : outer.combine = (· ++ ·))
    (hleft : blankKeyed desc l left ≠ 0) (hright : blankKeyed desc r right ≠ 0) :
    outer.join (KeysEqual desc l r) (blankKeyed desc l left) (blankKeyed desc r right) =
      crossed (blankKeyed desc l left) (blankKeyed desc r right) := by
  have hcomplete : ∀ row ∈ blankKeyed desc l left, ∀ row' ∈ blankKeyed desc r right,
      KeysEqual desc l r row row' := by
    intro row hrow row' hrow'
    exact (mem_blankKeyed hrow).trans (mem_blankKeyed hrow').symm
  rw [Outer.join_complete _ hcomplete hleft hright, hcombine]
  rfl

end Split

section Agreement

variable [Scalars] (desc : Option TupleDesc) (l r : Expr) (left right : List Row)

/-- No row that lacks a key could be paired with a row whose key is blank. -/
def Undisturbed : Prop :=
  (lacking desc l left = 0 ∨ blankKeyed desc r right = 0) ∧
    (lacking desc r right = 0 ∨ blankKeyed desc l left = 0)

/-- Or the pair looks like a padded row. -/
def AlgorithmsAgree (joinType : JoinType) : Prop :=
  match joinType with
  | .inner | .cross | .lateral => Undisturbed desc l r left right
  | .left =>
      lacking desc l left = 0 ∧
        (Undisturbed desc l r left right ∨
          blankKeyed desc r right = {blanks (rightColCount left right)})
  | .right =>
      Undisturbed desc l r left right ∨ blankKeyed desc l left = {blanks (firstWidth left)}
  | .full =>
      Undisturbed desc l r left right ∨
        (lacking desc l left = 0 ∧ emptyKeyed desc l left = {blanks (firstWidth left)} ∧
          emptyKeyed desc r right ≠ 0) ∨
        (lacking desc r right = 0 ∧
          emptyKeyed desc r right = {blanks (rightColCount left right)} ∧
          emptyKeyed desc l left ≠ 0) ∨
        (emptyKeyed desc l left = 0 ∨ emptyKeyed desc r right = 0) ∧
          TwoByTwo (firstWidth left) (rightColCount left right) (blankKeyed desc l left)
            (blankKeyed desc r right)

variable {desc l r left right}

theorem undisturbed_of_left (h : blankKeyed desc l left = 0) :
    Undisturbed desc l r left right :=
  ⟨.inl (lacking_eq_zero_of_blankKeyed h), .inr h⟩

theorem undisturbed_of_right (h : blankKeyed desc r right = 0) :
    Undisturbed desc l r left right :=
  ⟨.inr h, .inl (lacking_eq_zero_of_blankKeyed h)⟩

theorem undisturbed_iff (hleft : blankKeyed desc l left ≠ 0)
    (hright : blankKeyed desc r right ≠ 0) :
    Undisturbed desc l r left right ↔ lacking desc l left = 0 ∧ lacking desc r right = 0 := by
  rw [Undisturbed, or_iff_left hright, or_iff_left hleft]

theorem agree_of_left (h : blankKeyed desc l left = 0) (joinType : JoinType) :
    AlgorithmsAgree desc l r left right joinType := by
  have hundisturbed : Undisturbed desc l r left right := undisturbed_of_left h
  cases joinType with
  | inner | cross | lateral => exact hundisturbed
  | left => exact ⟨lacking_eq_zero_of_blankKeyed h, .inl hundisturbed⟩
  | right | full => exact .inl hundisturbed

/-- Without right rows to pair with, only a `LEFT JOIN` drops rows. -/
theorem agree_iff_of_right (h : blankKeyed desc r right = 0) (joinType : JoinType) :
    kept (rowsOuter joinType (firstWidth left) (rightColCount left right)).leftAlone
          (probedBlank desc l joinType left) =
        kept (rowsOuter joinType (firstWidth left) (rightColCount left right)).leftAlone
          (blankKeyed desc l left) ↔
      AlgorithmsAgree desc l r left right joinType := by
  have hundisturbed : Undisturbed desc l r left right := undisturbed_of_right h
  cases joinType with
  | inner | cross | lateral => exact iff_of_true rfl hundisturbed
  | right | full => exact iff_of_true rfl (.inl hundisturbed)
  | left =>
      change (emptyKeyed desc l left).map _ = (blankKeyed desc l left).map _ ↔
        lacking desc l left = 0 ∧ _
      rw [and_iff_left (Or.inl hundisturbed)]
      constructor
      · intro heq
        have hcard := congrArg Multiset.card heq
        rw [Multiset.card_map, Multiset.card_map, ← emptyKeyed_add_lacking,
          Multiset.card_add] at hcard
        exact Multiset.card_eq_zero.mp (by omega)
      · intro hnone
        rw [emptyKeyed_eq_of_lacking hnone]

theorem agree_iff_of_blank (hleft : blankKeyed desc l left ≠ 0)
    (hright : blankKeyed desc r right ≠ 0) (joinType : JoinType) :
    (rowsOuter joinType (firstWidth left) (rightColCount left right)).join (KeysMatch desc l r)
          (probedBlank desc l joinType left) (blankKeyed desc r right) =
        crossed (blankKeyed desc l left) (blankKeyed desc r right) ↔
      AlgorithmsAgree desc l r left right joinType := by
  have hundisturbed := undisturbed_iff hleft hright
  have hleft' := hleft
  have hright' := hright
  rw [← emptyKeyed_add_lacking] at hleft' hright'
  cases joinType with
  | inner | cross | lateral =>
      change _ ↔ Undisturbed desc l r left right
      rw [hundisturbed, ← crossed_parts_iff hleft' hright', emptyKeyed_add_lacking,
        emptyKeyed_add_lacking]
      change Outer.join _ _ (blankKeyed desc l left) _ = _ ↔ _
      rw [join_blankKeyed rfl]
      change crossed _ _ + (if _ then 0 else 0) + (if _ then 0 else 0) + 0 = _ ↔ _
      rw [ite_self, ite_self, add_zero, add_zero, add_zero]
  | left =>
      have hagree : AlgorithmsAgree desc l r left right .left ↔ lacking desc l left = 0 ∧
          (lacking desc r right = 0 ∨ emptyKeyed desc r right + lacking desc r right =
            {blanks (rightColCount left right)}) := by
        rw [emptyKeyed_add_lacking]
        apply and_congr_right
        intro hnone
        rw [hundisturbed, and_iff_right hnone]
      rw [hagree, ← left_parts_iff hleft' hright', emptyKeyed_add_lacking,
        emptyKeyed_add_lacking]
      change Outer.join _ _ (emptyKeyed desc l left) _ = _ ↔ _
      rw [join_emptyKeyed_blankKeyed rfl]
      change crossed _ _ + _ + (if _ then 0 else 0) + 0 = _ ↔ _
      rw [ite_self, add_zero, add_zero]
      rfl
  | right =>
      have hagree : AlgorithmsAgree desc l r left right .right ↔
          lacking desc l left = 0 ∧ lacking desc r right = 0 ∨
            emptyKeyed desc l left + lacking desc l left = {blanks (firstWidth left)} := by
        rw [emptyKeyed_add_lacking]
        exact or_congr_left hundisturbed
      rw [hagree, ← right_parts_iff hleft' hright', emptyKeyed_add_lacking,
        emptyKeyed_add_lacking]
      change Outer.join _ _ (blankKeyed desc l left) _ = _ ↔ _
      rw [join_blankKeyed rfl]
      change crossed _ _ + (if _ then 0 else 0) + _ + (0 + _) = _ ↔ _
      rw [ite_self, add_zero, zero_add]
      rfl
  | full =>
      have hagree : AlgorithmsAgree desc l r left right .full ↔
          lacking desc l left = 0 ∧ lacking desc r right = 0 ∨
            (lacking desc l left = 0 ∧ emptyKeyed desc l left = {blanks (firstWidth left)} ∧
              emptyKeyed desc r right ≠ 0) ∨
            (lacking desc r right = 0 ∧
              emptyKeyed desc r right = {blanks (rightColCount left right)} ∧
              emptyKeyed desc l left ≠ 0) ∨
            (emptyKeyed desc l left = 0 ∨ emptyKeyed desc r right = 0) ∧
              TwoByTwo (firstWidth left) (rightColCount left right)
                (emptyKeyed desc l left + lacking desc l left)
                (emptyKeyed desc r right + lacking desc r right) := by
        rw [emptyKeyed_add_lacking, emptyKeyed_add_lacking]
        exact or_congr_left hundisturbed
      rw [hagree, ← full_parts_iff hleft' hright', emptyKeyed_add_lacking,
        emptyKeyed_add_lacking]
      change Outer.join _ _ (blankKeyed desc l left) _ = _ ↔ _
      rw [join_blankKeyed rfl, ← add_assoc]
      rfl

/-- Rows whose key is missing are told apart by one algorithm only. -/
theorem joins_agree_iff (joinType : JoinType) :
    fieldsOf (hashJoin desc left right (.binaryOp l .equals r) joinType) =
        fieldsOf (mergeJoin desc left right (.binaryOp l .equals r) joinType) ↔
      AlgorithmsAgree desc l r left right joinType := by
  rw [joins_eq_iff_blank]
  rcases eq_or_ne (blankKeyed desc l left) 0 with hleft | hleft
  · have hprobed : probedBlank desc l joinType left = 0 := by
      apply Multiset.le_zero.mp
      rw [← hleft]
      exact probedBlank_le joinType
    rw [hprobed, hleft, Outer.join_zero_left, Outer.join_zero_left]
    exact iff_of_true rfl (agree_of_left hleft joinType)
  · rcases eq_or_ne (blankKeyed desc r right) 0 with hright | hright
    · rw [hright, Outer.join_zero_right, Outer.join_zero_right]
      exact agree_iff_of_right hright joinType
    · rw [join_blankKeyed_complete rfl hleft hright]
      exact agree_iff_of_blank hleft hright joinType

end Agreement

section Rows

attribute [local instance] wholeNumbers

/-- `10 / id`. -/
def tenth : Expr :=
  .binaryOp (.literal (.number "10")) .divide (.identifier "id")

/-- A left row whose key is missing is dropped by one algorithm and padded by the other. -/
theorem joins_disagree :
    fieldsOf (hashJoin (some idColumn) [(⟨⟨0⟩, 0⟩, ["0"])] [(⟨⟨1⟩, 0⟩, ["5"])]
        (.binaryOp tenth .equals (.identifier "id")) .left) = 0 ∧
      fieldsOf (mergeJoin (some idColumn) [(⟨⟨0⟩, 0⟩, ["0"])] [(⟨⟨1⟩, 0⟩, ["5"])]
        (.binaryOp tenth .equals (.identifier "id")) .left) = {["0", ""]} := by
  constructor
  · decide +kernel
  · rw [fieldsOf_mergeJoin]
    decide +kernel

end Rows

end PostgressRs.Executor.JoinAgreement
