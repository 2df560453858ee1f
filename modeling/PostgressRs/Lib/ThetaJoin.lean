import Mathlib.Data.Multiset.Bind
import Mathlib.Data.Multiset.Filter
import Mathlib.Data.Multiset.ZeroCons
import Mathlib.Tactic.Abel

/-!
Joins of bags along a relation, with what the rows without a partner give.
-/

namespace PostgressRs.Lib.ThetaJoin

section Pairs

variable {α β : Type*} (m : α → β → Prop) [∀ a b, Decidable (m a b)]

/-- Every pair of related elements, as often as there are copies of both. -/
def joined (left : Multiset α) (right : Multiset β) : Multiset (α × β) :=
  left.bind fun a => (right.filter (m a)).map (Prod.mk a)

/-- The elements of the left bag without a partner in the right one. -/
def alone (left : Multiset α) (right : Multiset β) : Multiset α :=
  left.filter fun a => ∀ b ∈ right, ¬m a b

omit [∀ a b, Decidable (m a b)] in
/-- No element has a partner. -/
def Separate (left : Multiset α) (right : Multiset β) : Prop :=
  ∀ a ∈ left, ∀ b ∈ right, ¬m a b

variable {m} {left left' : Multiset α} {right right' : Multiset β}

theorem joined_add_left :
    joined m (left + left') right = joined m left right + joined m left' right :=
  Multiset.add_bind _ _ _

theorem joined_add_right :
    joined m left (right + right') = joined m left right + joined m left right' := by
  rw [joined, joined, joined, ← Multiset.bind_add]
  congr 1
  funext a
  rw [Multiset.filter_add, Multiset.map_add]

theorem joined_of_separate (h : Separate m left right) : joined m left right = 0 := by
  rw [joined]
  apply Multiset.eq_zero_of_forall_notMem
  intro pair hpair
  rw [Multiset.mem_bind] at hpair
  obtain ⟨a, ha, hpair⟩ := hpair
  rw [Multiset.mem_map] at hpair
  obtain ⟨b, hb, -⟩ := hpair
  rw [Multiset.mem_filter] at hb
  exact h a ha b hb.1 hb.2

theorem alone_add_left :
    alone m (left + left') right = alone m left right + alone m left' right :=
  Multiset.filter_add _ _ _

theorem alone_of_separate (h : Separate m left right) : alone m left right = left :=
  Multiset.filter_eq_self.mpr h

theorem alone_add_right (h : Separate m left right') :
    alone m left (right + right') = alone m left right := by
  apply Multiset.filter_congr
  intro a ha
  constructor
  · intro hnone b hb
    exact hnone b (Multiset.mem_add.mpr (.inl hb))
  · intro hnone b hb
    rcases Multiset.mem_add.mp hb with hb | hb
    · exact hnone b hb
    · exact h a ha b hb

theorem joined_congr {m' : α → β → Prop} [∀ a b, Decidable (m' a b)]
    (h : ∀ a ∈ left, ∀ b ∈ right, m a b ↔ m' a b) :
    joined m left right = joined m' left right := by
  apply Multiset.bind_congr
  intro a ha
  rw [Multiset.filter_congr (h a ha)]

theorem alone_congr {m' : α → β → Prop} [∀ a b, Decidable (m' a b)]
    (h : ∀ a ∈ left, ∀ b ∈ right, m a b ↔ m' a b) :
    alone m left right = alone m' left right := by
  apply Multiset.filter_congr
  intro a ha
  exact forall₂_congr fun b hb => not_congr (h a ha b hb)

omit [∀ a b, Decidable (m a b)] in
theorem bind_ite_singleton (p : α → Prop) [DecidablePred p] (f : α → β)
    (s : Multiset α) : (s.bind fun a => if p a then {f a} else 0) = (s.filter p).map f := by
  induction s using Multiset.induction_on with
  | empty => rfl
  | cons a s ih =>
      rw [Multiset.cons_bind, ih]
      by_cases ha : p a
      · rw [if_pos ha, Multiset.filter_cons_of_pos s ha, Multiset.map_cons,
          Multiset.singleton_add]
      · rw [if_neg ha, Multiset.filter_cons_of_neg s ha, zero_add]

end Pairs

section Outer

variable {α β γ : Type*}

/-- What a join makes of a pair, and of an element without a partner if it keeps those. -/
structure Outer (α β γ : Type*) where
  combine : α → β → γ
  leftAlone : Option (α → γ)
  rightAlone : Option (β → γ)

def kept (f : Option (α → γ)) (s : Multiset α) : Multiset γ :=
  match f with
  | some f => s.map f
  | none => 0

@[simp] theorem kept_zero (f : Option (α → γ)) : kept f 0 = 0 := by
  cases f <;> rfl

theorem kept_add (f : Option (α → γ)) (s t : Multiset α) :
    kept f (s + t) = kept f s + kept f t := by
  cases f with
  | none => rfl
  | some f => exact Multiset.map_add f s t

variable (outer : Outer α β γ) (m : α → β → Prop) [∀ a b, Decidable (m a b)]

def Outer.pairs (s : Multiset (α × β)) : Multiset γ :=
  s.map fun pair => outer.combine pair.1 pair.2

def Outer.join (left : Multiset α) (right : Multiset β) : Multiset γ :=
  outer.pairs (joined m left right) + kept outer.leftAlone (alone m left right) +
    kept outer.rightAlone (alone (fun b a => m a b) right left)

variable {m} {left left' : Multiset α} {right right' : Multiset β}

/-- Two parts that have no partners in each other's are joined part by part. -/
theorem Outer.join_add (h : Separate m left right') (h' : Separate m left' right) :
    outer.join m (left + left') (right + right') =
      outer.join m left right + outer.join m left' right' := by
  have hright : Separate (fun b a => m a b) right left' :=
    fun b hb a ha => h' a ha b hb
  have hright' : Separate (fun b a => m a b) right' left :=
    fun b hb a ha => h a ha b hb
  have hpairs : joined m (left + left') (right + right') =
      joined m left right + joined m left' right' := by
    rw [joined_add_left, joined_add_right, joined_add_right, joined_of_separate h,
      joined_of_separate h', add_zero, zero_add]
  have hleft : alone m (left + left') (right + right') =
      alone m left right + alone m left' right' := by
    rw [alone_add_left, alone_add_right h, add_comm right right', alone_add_right h']
  have hrightAlone : alone (fun b a => m a b) (right + right') (left + left') =
      alone (fun b a => m a b) right left + alone (fun b a => m a b) right' left' := by
    rw [alone_add_left, alone_add_right hright, add_comm left left', alone_add_right hright']
  rw [Outer.join, hpairs, hleft, hrightAlone, Outer.pairs, Multiset.map_add, kept_add, kept_add,
    Outer.join, Outer.join]
  change _ + _ + (_ + _) + (_ + _) = outer.pairs _ + _ + _ + (outer.pairs _ + _ + _)
  rw [Outer.pairs, Outer.pairs]
  abel

theorem Outer.join_zero_right : outer.join m left 0 = kept outer.leftAlone left := by
  have hseparate : Separate m left 0 := fun _ _ b hb => absurd hb (Multiset.notMem_zero b)
  have hnone : alone (fun b a => m a b) 0 left = 0 := rfl
  rw [Outer.join, joined_of_separate hseparate, alone_of_separate hseparate, hnone, kept_zero,
    add_zero]
  exact zero_add _

theorem Outer.join_zero_left : outer.join m 0 right = kept outer.rightAlone right := by
  have hseparate : Separate (fun b a => m a b) right (0 : Multiset α) :=
    fun _ _ a ha => absurd ha (Multiset.notMem_zero a)
  have hpairs : joined m (0 : Multiset α) right = 0 := rfl
  have hnone : alone m (0 : Multiset α) right = 0 := rfl
  rw [Outer.join, hpairs, hnone, alone_of_separate hseparate, kept_zero, add_zero]
  exact zero_add _

theorem Outer.join_congr {m' : α → β → Prop} [∀ a b, Decidable (m' a b)]
    (h : ∀ a ∈ left, ∀ b ∈ right, m a b ↔ m' a b) :
    outer.join m left right = outer.join m' left right := by
  have hright : alone (fun b a => m a b) right left = alone (fun b a => m' a b) right left :=
    alone_congr fun b hb a ha => h a ha b hb
  rw [Outer.join, joined_congr h, alone_congr h, hright]
  rfl

theorem mem_kept {f : Option (α → γ)} {s : Multiset α} {c : γ} (h : c ∈ kept f s) :
    ∃ g a, f = some g ∧ a ∈ s ∧ c = g a := by
  cases f with
  | none => exact absurd h (Multiset.notMem_zero c)
  | some g =>
      obtain ⟨a, ha, hc⟩ := Multiset.mem_map.mp h
      exact ⟨g, a, rfl, ha, hc.symm⟩

/-- What an element of a join was made of. -/
theorem Outer.mem_join {c : γ} (h : c ∈ outer.join m left right) :
    (∃ a ∈ left, ∃ b ∈ right, m a b ∧ c = outer.combine a b) ∨
      (∃ f, outer.leftAlone = some f ∧ ∃ a ∈ left, c = f a) ∨
        ∃ f, outer.rightAlone = some f ∧ ∃ b ∈ right, c = f b := by
  rw [Outer.join, Multiset.mem_add, Multiset.mem_add, Outer.pairs, joined] at h
  rcases h with (h | h) | h
  · obtain ⟨pair, hpair, hc⟩ := Multiset.mem_map.mp h
    obtain ⟨a, ha, hpair⟩ := Multiset.mem_bind.mp hpair
    obtain ⟨b, hb, rfl⟩ := Multiset.mem_map.mp hpair
    obtain ⟨hb, hm⟩ := Multiset.mem_filter.mp hb
    exact .inl ⟨a, ha, b, hb, hm, hc.symm⟩
  · obtain ⟨f, a, hf, ha, hc⟩ := mem_kept h
    exact .inr (.inl ⟨f, hf, a, (Multiset.mem_filter.mp ha).1, hc⟩)
  · obtain ⟨f, b, hf, hb, hc⟩ := mem_kept h
    exact .inr (.inr ⟨f, hf, b, (Multiset.mem_filter.mp hb).1, hc⟩)

/-- Where every pair is related, nothing is left alone. -/
theorem Outer.join_complete (h : ∀ a ∈ left, ∀ b ∈ right, m a b) (hleft : left ≠ 0)
    (hright : right ≠ 0) :
    outer.join m left right = left.bind fun a => right.map (outer.combine a) := by
  obtain ⟨a, ha⟩ := Multiset.exists_mem_of_ne_zero hleft
  obtain ⟨b, hb⟩ := Multiset.exists_mem_of_ne_zero hright
  have hnone : alone m left right = 0 := by
    apply Multiset.filter_eq_nil.mpr
    intro a ha hnone
    exact hnone b hb (h a ha b hb)
  have hnone' : alone (fun b a => m a b) right left = 0 := by
    apply Multiset.filter_eq_nil.mpr
    intro b hb hnone
    exact hnone a ha (h a ha b hb)
  have hpairs : joined m left right = left.bind fun a => right.map (Prod.mk a) := by
    apply Multiset.bind_congr
    intro a ha
    rw [Multiset.filter_eq_self.mpr (h a ha)]
  rw [Outer.join, hnone, hnone', kept_zero, kept_zero, add_zero, add_zero, hpairs, Outer.pairs,
    Multiset.map_bind]
  simp only [Multiset.map_map, Function.comp_def]

/-- Where no pair is related, everything is left alone. -/
theorem Outer.join_separate (h : Separate m left right) :
    outer.join m left right = kept outer.leftAlone left + kept outer.rightAlone right := by
  have hright : Separate (fun b a => m a b) right left := fun b hb a ha => h a ha b hb
  rw [Outer.join, joined_of_separate h, alone_of_separate h, alone_of_separate hright]
  exact congrArg (· + _) (zero_add _)

end Outer

section Images

variable {α β γ α' β' : Type*} (outer : Outer α β γ) (f : α' → α) (g : β' → β)

/-- The join of elements through their images. -/
def Outer.comap : Outer α' β' γ where
  combine a b := outer.combine (f a) (g b)
  leftAlone := outer.leftAlone.map (· ∘ f)
  rightAlone := outer.rightAlone.map (· ∘ g)

theorem Outer.comap_comap {α'' β'' : Type*} (f' : α'' → α') (g' : β'' → β') :
    (outer.comap f g).comap f' g' = outer.comap (f ∘ f') (g ∘ g') := by
  simp only [Outer.comap, Option.map_map]
  rfl

theorem kept_map (h : Option (α → γ)) (s : Multiset α') :
    kept h (s.map f) = kept (h.map (· ∘ f)) s := by
  cases h with
  | none => rfl
  | some h => exact Multiset.map_map h f s

variable (m : α → β → Prop) [∀ a b, Decidable (m a b)]

theorem joined_map (left : Multiset α') (right : Multiset β') :
    joined m (left.map f) (right.map g) =
      (joined (fun a b => m (f a) (g b)) left right).map (Prod.map f g) := by
  rw [joined, joined, Multiset.bind_map, Multiset.map_bind]
  apply Multiset.bind_congr
  intro a _
  rw [Multiset.filter_map, Multiset.map_map, Multiset.map_map]
  rfl

theorem alone_map (left : Multiset α') (right : Multiset β') :
    alone m (left.map f) (right.map g) =
      (alone (fun a b => m (f a) (g b)) left right).map f := by
  rw [alone, Multiset.filter_map]
  congr 1
  apply Multiset.filter_congr
  intro a _
  simp only [Function.comp_apply, Multiset.mem_map, forall_exists_index, and_imp,
    forall_apply_eq_imp_iff₂]

theorem Outer.join_map (left : Multiset α') (right : Multiset β') :
    outer.join m (left.map f) (right.map g) =
      (outer.comap f g).join (fun a b => m (f a) (g b)) left right := by
  rw [Outer.join, Outer.join, joined_map, alone_map, alone_map, kept_map, kept_map, Outer.pairs,
    Multiset.map_map]
  rfl

end Images

end PostgressRs.Lib.ThetaJoin
