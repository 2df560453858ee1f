import Mathlib.Data.List.Perm.Basic

/-!
Comparisons of two values that order them up to ties, and stable sorting by them.
-/

namespace PostgressRs.Lib.Comparisons

open Std

section Results

theorem swap_eq_self_iff {order : Ordering} : order.swap = order ↔ order = .eq := by
  cases order <;> decide

theorem then_eq_left {a b : Ordering} (h : a ≠ .eq) : a.then b = a := by
  cases a with
  | eq => exact absurd rfl h
  | lt => rfl
  | gt => rfl

/-- Two comparisons in turn with the same ties at first agree if the first that tells apart does. -/
theorem then_eq_then_iff {a b c d : Ordering} (h : a = .eq ↔ b = .eq) :
    a.then c = b.then d ↔ if a = .eq then c = d else a = b := by
  split
  · rw [‹a = .eq›, h.mp ‹_›]
    rfl
  · rw [then_eq_left ‹_›, then_eq_left fun hb => ‹a ≠ .eq› (h.mpr hb)]

end Results

section Combinations

variable {α : Type}

/-- The result of the first comparison that tells the two apart. -/
def inTurn : List (α → α → Ordering) → α → α → Ordering
  | [] => fun _ _ => .eq
  | cmp :: cmps => compareLex cmp (inTurn cmps)

theorem inTurn_cons (cmp : α → α → Ordering) (cmps : List (α → α → Ordering)) (a b : α) :
    inTurn (cmp :: cmps) a b = (cmp a b).then (inTurn cmps a b) := rfl

instance transCmp_eq : TransCmp (fun _ _ : α => Ordering.eq) where
  eq_swap := rfl
  isLE_trans _ _ := rfl

theorem transCmp_inTurn {cmps : List (α → α → Ordering)} (h : ∀ cmp ∈ cmps, TransCmp cmp) :
    TransCmp (inTurn cmps) := by
  induction cmps with
  | nil => exact transCmp_eq
  | cons cmp cmps ih =>
      have hfirst : TransCmp cmp := h cmp List.mem_cons_self
      have hrest : TransCmp (inTurn cmps) :=
        ih fun cmp' hcmp => h cmp' (List.mem_cons_of_mem _ hcmp)
      exact inferInstanceAs (TransCmp (compareLex cmp (inTurn cmps)))

theorem inTurn_eq_iff {cmps : List (α → α → Ordering)} {a b : α} :
    inTurn cmps a b = .eq ↔ ∀ cmp ∈ cmps, cmp a b = .eq := by
  induction cmps with
  | nil => exact ⟨fun _ _ h => absurd h List.not_mem_nil, fun _ => rfl⟩
  | cons cmp cmps ih =>
      rw [inTurn_cons, Ordering.then_eq_eq, ih, List.forall_mem_cons]

/-- The comparison after a change of its arguments. -/
theorem transCmp_on {β : Type} {cmp : β → β → Ordering} (h : TransCmp cmp) (f : α → β) :
    TransCmp fun a b => cmp (f a) (f b) where
  eq_swap := OrientedCmp.eq_swap
  isLE_trans := TransCmp.isLE_trans

theorem transCmp_swap {cmp : α → α → Ordering} (h : TransCmp cmp) :
    TransCmp fun a b => (cmp a b).swap := by
  have hopposite : (fun a b => (cmp a b).swap) = fun a b => cmp b a := by
    funext a b
    exact (@OrientedCmp.eq_swap _ cmp _ b a).symm
  rw [hopposite]
  exact TransCmp.opposite

/-- Missing values stand on one side of all others. -/
def withMissing (first : Bool) (cmp : α → α → Ordering) : Option α → Option α → Ordering
  | none, none => .eq
  | none, some _ => if first then .lt else .gt
  | some _, none => if first then .gt else .lt
  | some a, some b => cmp a b

theorem transCmp_withMissing {cmp : α → α → Ordering} (h : TransCmp cmp) (first : Bool) :
    TransCmp (withMissing first cmp) where
  eq_swap {a b} := by
    cases a with
    | none => cases b <;> cases first <;> rfl
    | some a =>
        cases b with
        | none => cases first <;> rfl
        | some b => exact @OrientedCmp.eq_swap _ cmp _ a b
  isLE_trans {a b c} hab hbc := by
    cases a with
    | none => cases b <;> cases c <;> cases first <;> simp_all [withMissing]
    | some a =>
        cases b with
        | none => cases c <;> cases first <;> simp_all [withMissing]
        | some b =>
            cases c with
            | none => cases first <;> simp_all [withMissing]
            | some c => exact @TransCmp.isLE_trans _ cmp _ a b c hab hbc

theorem withMissing_eq_iff {cmp : α → α → Ordering} (h : ∀ a b, cmp a b = .eq ↔ a = b)
    {first : Bool} {a b : Option α} : withMissing first cmp a b = .eq ↔ a = b := by
  cases a with
  | none => cases b <;> cases first <;> simp [withMissing]
  | some a =>
      cases b with
      | none => cases first <;> simp [withMissing]
      | some b => rw [withMissing, h, Option.some.injEq]

end Combinations

section Sorting

variable {α : Type} (cmp : α → α → Ordering)

def sortBy (l : List α) : List α := l.mergeSort fun a b => cmp a b != .gt

def ties (a b : α) : Bool := cmp a b = .eq

theorem perm_sortBy (l : List α) : (sortBy cmp l).Perm l := List.mergeSort_perm l _

variable {cmp}

theorem ne_gt_iff {a b : α} : (cmp a b != .gt) = true ↔ (cmp a b).isLE := by
  cases cmp a b <;> decide

variable [TransCmp cmp]

theorem ne_gt_trans (a b c : α) (hab : (cmp a b != .gt) = true) (hbc : (cmp b c != .gt) = true) :
    (cmp a c != .gt) = true :=
  ne_gt_iff.mpr (TransCmp.isLE_trans (ne_gt_iff.mp hab) (ne_gt_iff.mp hbc))

omit [TransCmp cmp] in
theorem ne_gt_total [OrientedCmp cmp] (a b : α) : (cmp a b != .gt || cmp b a != .gt) = true := by
  rw [@OrientedCmp.eq_swap _ cmp _ b a]
  cases cmp a b <;> rfl

theorem pairwise_sortBy (l : List α) : (sortBy cmp l).Pairwise fun a b => cmp a b ≠ .gt := by
  have hsorted := List.pairwise_mergeSort (@ne_gt_trans _ cmp _) ne_gt_total l
  exact hsorted.imp bne_iff_ne.mp

theorem ties_pairwise (a : α) (l : List α) :
    (l.filter (ties cmp a)).Pairwise fun b c => (cmp b c != .gt) = true := by
  apply List.Pairwise.imp_of_mem _ (List.pairwise_of_forall fun _ _ => trivial)
  intro b c hb hc _
  have hab : cmp a b = .eq := of_decide_eq_true (List.mem_filter.mp hb).2
  have hac : cmp a c = .eq := of_decide_eq_true (List.mem_filter.mp hc).2
  rw [TransCmp.eq_trans (OrientedCmp.eq_symm hab) hac]
  rfl

/-- Ties stay in the order in which they came. -/
theorem filter_sortBy (a : α) (l : List α) :
    (sortBy cmp l).filter (ties cmp a) = l.filter (ties cmp a) := by
  have hsub : (l.filter (ties cmp a)).Sublist (sortBy cmp l) :=
    List.sublist_mergeSort ne_gt_trans ne_gt_total (ties_pairwise a l) List.filter_sublist
  have hfilter := hsub.filter (ties cmp a)
  rw [List.filter_filter, List.filter_congr fun b _ => Bool.and_self (ties cmp a b)] at hfilter
  exact (hfilter.eq_of_length ((perm_sortBy cmp l).filter _).length_eq.symm).symm

omit [TransCmp cmp] in
/-- A list that is sorted already. -/
theorem sortBy_of_pairwise {l : List α} (h : l.Pairwise fun a b => cmp a b ≠ .gt) :
    sortBy cmp l = l :=
  List.mergeSort_of_pairwise (h.imp fun hne => bne_iff_ne.mpr hne)

end Sorting

section Agreement

variable {α : Type} {cmp cmp' : α → α → Ordering}

theorem sortBy_congr {l : List α} (h : ∀ a ∈ l, ∀ b ∈ l, cmp a b = cmp' a b) :
    sortBy cmp l = sortBy cmp' l := by
  have hle : ∀ a ∈ l, ∀ b ∈ l, (cmp a b != .gt) = (cmp' (id a) (id b) != .gt) := by
    intro a ha b hb
    rw [h a ha b hb]
    rfl
  have hmap := @List.map_mergeSort _ _ (fun a b => cmp a b != .gt) (fun a b => cmp' a b != .gt) id
    l hle
  rwa [List.map_id, List.map_id] at hmap

/-- Two elements that a comparison tells apart stand in its order. -/
theorem lt_of_before [TransCmp cmp] {l : List α} {a b : α} (h : cmp a b = .lt) :
    ¬[b, a].Sublist (sortBy cmp l) := by
  intro hsub
  have hpair := (pairwise_sortBy l).sublist hsub
  rw [List.pairwise_pair] at hpair
  exact hpair (OrientedCmp.gt_of_lt h)

theorem sublist_pair_or {l : List α} {a b : α} (ha : a ∈ l) (hb : b ∈ l) (hne : a ≠ b) :
    [a, b].Sublist l ∨ [b, a].Sublist l := by
  induction l with
  | nil => exact absurd ha List.not_mem_nil
  | cons c l ih =>
      rcases List.mem_cons.mp ha with rfl | hal
      · exact .inl (List.Sublist.cons_cons _
          (List.singleton_sublist.mpr ((List.mem_cons.mp hb).resolve_left hne.symm)))
      · rcases List.mem_cons.mp hb with rfl | hbl
        · exact .inr (List.Sublist.cons_cons _ (List.singleton_sublist.mpr hal))
        · exact (ih hal hbl).imp (List.Sublist.cons _) (List.Sublist.cons _)

/-- Elements that come in any order, none of them tied with another. -/
theorem sortBy_eq_of_perm [TransCmp cmp] {l l' : List α} (hperm : l.Perm l')
    (hsorted : l'.Pairwise fun a b => cmp a b = .lt) : sortBy cmp l = l' := by
  have hsame : (sortBy cmp l).Perm l' := (perm_sortBy cmp l).trans hperm
  have hordered : l'.Pairwise fun a b => cmp a b ≠ .gt := by
    apply hsorted.imp
    intro a b hlt hgt
    rw [hlt] at hgt
    cases hgt
  refine hsame.eq_of_pairwise ?_ (pairwise_sortBy l) hordered
  intro a b ha hb hle hge
  by_contra hne
  rcases sublist_pair_or (hsame.mem_iff.mp ha) hb hne with hsub | hsub
  · have hlt := hsorted.sublist hsub
    rw [List.pairwise_pair] at hlt
    exact hge (OrientedCmp.gt_of_lt hlt)
  · have hlt := hsorted.sublist hsub
    rw [List.pairwise_pair] at hlt
    exact hle (OrientedCmp.gt_of_lt hlt)

/-- Comparisons with the same ties sort a list in the same way only if they agree on it. -/
theorem sortBy_eq_iff [TransCmp cmp] [TransCmp cmp']
    (hties : ∀ a b, cmp a b = .eq ↔ cmp' a b = .eq) {l : List α} :
    sortBy cmp l = sortBy cmp' l ↔ ∀ a ∈ l, ∀ b ∈ l, cmp a b = cmp' a b := by
  refine ⟨?_, sortBy_congr⟩
  intro heq
  have hlt : ∀ a ∈ l, ∀ b ∈ l, cmp a b = .lt → cmp' a b = .lt := by
    intro a ha b hb hab
    have hne : a ≠ b := by
      rintro rfl
      rw [@ReflCmp.compare_self _ cmp] at hab
      cases hab
    have hsub := (sublist_pair_or ((perm_sortBy cmp l).mem_iff.mpr ha)
      ((perm_sortBy cmp l).mem_iff.mpr hb) hne).resolve_right (lt_of_before hab)
    rw [heq] at hsub
    cases hcmp : cmp' a b with
    | lt => rfl
    | eq =>
        rw [(hties a b).mpr hcmp] at hab
        cases hab
    | gt => exact absurd hsub (lt_of_before (OrientedCmp.lt_of_gt hcmp))
  intro a ha b hb
  cases hab : cmp a b with
  | lt => exact (hlt a ha b hb hab).symm
  | eq => exact ((hties a b).mp hab).symm
  | gt => exact (OrientedCmp.gt_of_lt (hlt b hb a ha (OrientedCmp.lt_of_gt hab))).symm

end Agreement

end PostgressRs.Lib.Comparisons
