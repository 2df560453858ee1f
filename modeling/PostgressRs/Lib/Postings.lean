import Mathlib.Data.List.AList
import Mathlib.Algebra.Order.Group.Multiset

/-!
Maps from keys to lists of elements, and what they hold after any insertions and removals.
-/

namespace PostgressRs.Lib.Postings

variable {κ α : Type} [DecidableEq κ] [DecidableEq α]

abbrev PostingLists (κ α : Type) : Type := AList fun _ : κ => List α

section Operations

def under (self : PostingLists κ α) (key : κ) : List α := (self.lookup key).getD []

def push (self : PostingLists κ α) (key : κ) (a : α) : PostingLists κ α :=
  self.insert key (under self key ++ [a])

/-- The first occurrence is removed, and a list that is left empty goes with its key. -/
def remove (self : PostingLists κ α) (key : κ) (a : α) : PostingLists κ α × Bool :=
  match self.lookup key with
  | some elements =>
      if a ∈ elements then
        let elements := elements.erase a
        (if elements.isEmpty then self.erase key else self.insert key elements, true)
      else (self, false)
  | none => (self, false)

variable {self : PostingLists κ α} {key key' : κ}

omit [DecidableEq α] in
theorem lookup_eq_some_under (h : under self key ≠ []) :
    self.lookup key = some (under self key) := by
  unfold under at h ⊢
  cases hlookup : self.lookup key with
  | none => exact absurd (by rw [hlookup]; rfl) h
  | some elements => rfl

omit [DecidableEq α] in
@[simp] theorem under_push_self (self : PostingLists κ α) (key : κ) (a : α) :
    under (push self key a) key = under self key ++ [a] := by
  rw [under, push, AList.lookup_insert, Option.getD_some]

omit [DecidableEq α] in
theorem under_push_of_ne (h : key' ≠ key) (a : α) :
    under (push self key a) key' = under self key' := by
  rw [under, push, AList.lookup_insert_ne h]
  rfl

theorem remove_of_mem {a : α} (h : a ∈ under self key) :
    remove self key a =
      (if ((under self key).erase a).isEmpty then self.erase key
        else self.insert key ((under self key).erase a), true) := by
  rw [remove, lookup_eq_some_under (List.ne_nil_of_mem h)]
  exact if_pos h

theorem remove_of_notMem {a : α} (h : a ∉ under self key) : remove self key a = (self, false) := by
  rw [remove]
  cases hlookup : self.lookup key with
  | none => rfl
  | some elements =>
      rw [under, hlookup, Option.getD_some] at h
      exact if_neg h

theorem remove_snd_iff {a : α} : (remove self key a).2 = true ↔ a ∈ under self key := by
  by_cases h : a ∈ under self key
  · rw [remove_of_mem h]
    exact iff_of_true rfl h
  · rw [remove_of_notMem h]
    exact iff_of_false Bool.false_ne_true h

@[simp] theorem under_remove_self (self : PostingLists κ α) (key : κ) (a : α) :
    under (remove self key a).1 key = (under self key).erase a := by
  by_cases h : a ∈ under self key
  · rw [remove_of_mem h]
    show under (ite _ _ _) key = _
    split
    · rw [under, AList.lookup_erase]
      exact (List.isEmpty_iff.mp ‹_›).symm
    · rw [under, AList.lookup_insert, Option.getD_some]
  · rw [remove_of_notMem h, List.erase_of_not_mem h]

theorem under_remove_of_ne (h : key' ≠ key) (a : α) :
    under (remove self key a).1 key' = under self key' := by
  by_cases hmem : a ∈ under self key
  · rw [remove_of_mem hmem]
    show under (ite _ _ _) key' = _
    split
    · rw [under, AList.lookup_erase_ne h]
      rfl
    · rw [under, AList.lookup_insert_ne h]
      rfl
  · rw [remove_of_notMem hmem]

end Operations

section Runs

inductive Edit (κ α : Type) where
  | insert (key : κ) (a : α)
  | delete (key : κ) (a : α)

def Edit.apply (self : PostingLists κ α) : Edit κ α → PostingLists κ α
  | .insert key a => push self key a
  | .delete key a => (remove self key a).1

def Edit.effect (held : Multiset (κ × α)) : Edit κ α → Multiset (κ × α)
  | .insert key a => (key, a) ::ₘ held
  | .delete key a => held.erase (key, a)

def applyAll (self : PostingLists κ α) (edits : List (Edit κ α)) : PostingLists κ α :=
  edits.foldl Edit.apply self

/-- What is inserted and not removed. -/
def remaining (edits : List (Edit κ α)) : Multiset (κ × α) := edits.foldl Edit.effect 0

omit [DecidableEq κ] [DecidableEq α] in
def pushed : List (Edit κ α) → List (κ × α)
  | [] => []
  | .insert key a :: edits => (key, a) :: pushed edits
  | .delete _ _ :: edits => pushed edits

/-- The elements that some pairs have under a key. -/
def elementsUnder (held : Multiset (κ × α)) (key : κ) : Multiset α :=
  (held.filter fun pair => pair.1 = key).map Prod.snd

/-- The lists hold the pairs of a multiset. -/
def Holds (self : PostingLists κ α) (held : Multiset (κ × α)) : Prop :=
  ∀ key, (under self key : Multiset α) = elementsUnder held key

variable {self : PostingLists κ α} {held : Multiset (κ × α)}

omit [DecidableEq α] in
theorem elementsUnder_cons_self (held : Multiset (κ × α)) (key : κ) (a : α) :
    elementsUnder ((key, a) ::ₘ held) key = a ::ₘ elementsUnder held key := by
  rw [elementsUnder, Multiset.filter_cons_of_pos (p := fun pair => pair.1 = key) held rfl,
    Multiset.map_cons]
  rfl

omit [DecidableEq α] in
theorem elementsUnder_cons_of_ne {key key' : κ} (h : key' ≠ key) (a : α) :
    elementsUnder ((key, a) ::ₘ held) key' = elementsUnder held key' := by
  rw [elementsUnder, Multiset.filter_cons_of_neg (p := fun pair => pair.1 = key') held (Ne.symm h)]
  rfl

omit [DecidableEq α] in
theorem mem_elementsUnder {key : κ} {a : α} : a ∈ elementsUnder held key ↔ (key, a) ∈ held := by
  rw [elementsUnder, Multiset.mem_map]
  constructor
  · rintro ⟨⟨key', a'⟩, hpair, rfl⟩
    obtain ⟨hmem, rfl⟩ := Multiset.mem_filter.mp hpair
    exact hmem
  · exact fun hmem => ⟨(key, a), Multiset.mem_filter.mpr ⟨hmem, rfl⟩, rfl⟩

theorem count_elementsUnder (held : Multiset (κ × α)) (key : κ) (a : α) :
    (elementsUnder held key).count a = held.count (key, a) := by
  induction held using Multiset.induction with
  | empty => rfl
  | cons pair held ih =>
      obtain ⟨key', b⟩ := pair
      rw [Multiset.count_cons]
      rcases eq_or_ne key key' with rfl | hne
      · rw [elementsUnder_cons_self, Multiset.count_cons, ih]
        simp only [Prod.mk.injEq, true_and]
      · rw [elementsUnder_cons_of_ne hne, ih, if_neg fun heq => hne (congrArg Prod.fst heq),
          Nat.add_zero]

theorem elementsUnder_erase_self (held : Multiset (κ × α)) (key : κ) (a : α) :
    elementsUnder (held.erase (key, a)) key = (elementsUnder held key).erase a := by
  by_cases hmem : (key, a) ∈ held
  · obtain ⟨rest, rfl⟩ := Multiset.exists_cons_of_mem hmem
    rw [Multiset.erase_cons_head, elementsUnder_cons_self, Multiset.erase_cons_head]
  · rw [Multiset.erase_of_notMem hmem, Multiset.erase_of_notMem (by rwa [mem_elementsUnder])]

theorem elementsUnder_erase_of_ne {key key' : κ} (h : key' ≠ key) (a : α) :
    elementsUnder (held.erase (key, a)) key' = elementsUnder held key' := by
  by_cases hmem : (key, a) ∈ held
  · obtain ⟨rest, rfl⟩ := Multiset.exists_cons_of_mem hmem
    rw [Multiset.erase_cons_head, elementsUnder_cons_of_ne h]
  · rw [Multiset.erase_of_notMem hmem]

omit [DecidableEq α] in
theorem Holds.insert (h : Holds self held) (key : κ) (a : α) :
    Holds (push self key a) ((key, a) ::ₘ held) := by
  intro key'
  rcases eq_or_ne key' key with rfl | hne
  · rw [under_push_self, elementsUnder_cons_self, ← h key', ← Multiset.coe_add, add_comm]
    rfl
  · rw [under_push_of_ne hne, elementsUnder_cons_of_ne hne, h key']

theorem Holds.delete (h : Holds self held) (key : κ) (a : α) :
    Holds (remove self key a).1 (held.erase (key, a)) := by
  intro key'
  rcases eq_or_ne key' key with rfl | hne
  · rw [under_remove_self, ← Multiset.coe_erase, h key', elementsUnder_erase_self]
  · rw [under_remove_of_ne hne, h key', elementsUnder_erase_of_ne hne]

theorem Holds.apply (h : Holds self held) (edit : Edit κ α) :
    Holds (edit.apply self) (edit.effect held) := by
  cases edit with
  | insert key a => exact h.insert key a
  | delete key a => exact h.delete key a

omit [DecidableEq α] in
theorem holds_empty : Holds (∅ : PostingLists κ α) 0 := fun _ => rfl

theorem holds_applyAll (edits : List (Edit κ α)) :
    Holds (applyAll ∅ edits) (remaining edits) := by
  have hfold : ∀ (self : PostingLists κ α) held, Holds self held →
      Holds (edits.foldl Edit.apply self) (edits.foldl Edit.effect held) := by
    induction edits with
    | nil => exact fun _ _ h => h
    | cons edit edits ih => exact fun _ _ h => ih _ _ (h.apply edit)
  exact hfold ∅ 0 holds_empty

omit [DecidableEq κ] [DecidableEq α] in
theorem mem_pushed {edits : List (Edit κ α)} {key : κ} {a : α} :
    (key, a) ∈ pushed edits ↔ .insert key a ∈ edits := by
  induction edits with
  | nil => exact iff_of_false List.not_mem_nil List.not_mem_nil
  | cons edit edits ih =>
      cases edit with
      | insert key' b =>
          rw [pushed, List.mem_cons, List.mem_cons, ih, Prod.mk.injEq, Edit.insert.injEq]
      | delete key' b =>
          rw [pushed, List.mem_cons, ih]
          exact (or_iff_right nofun).symm

/-- Nothing is held more often than it was inserted. -/
theorem remaining_le_pushed (edits : List (Edit κ α)) :
    remaining edits ≤ (pushed edits : Multiset (κ × α)) := by
  have hfold : ∀ held : Multiset (κ × α),
      edits.foldl Edit.effect held ≤ held + (pushed edits : Multiset (κ × α)) := by
    induction edits with
    | nil => exact fun held => (add_zero held).ge
    | cons edit edits ih =>
        intro held
        cases edit with
        | insert key a =>
            have hnext := ih ((key, a) ::ₘ held)
            rwa [Multiset.cons_add, ← Multiset.add_cons] at hnext
        | delete key a =>
            exact (ih (held.erase (key, a))).trans
              (add_le_add_left (Multiset.erase_le (key, a) held) _)
  have hall := hfold 0
  rwa [zero_add] at hall

end Runs

section Keys

omit [DecidableEq κ] [DecidableEq α] in
def Edit.key : Edit κ α → κ
  | .insert key _ => key
  | .delete key _ => key

/-- What an edit means for the elements under its own key. -/
def Edit.change (elements : Multiset α) : Edit κ α → Multiset α
  | .insert _ a => a ::ₘ elements
  | .delete _ a => elements.erase a

omit [DecidableEq κ] [DecidableEq α] in
def Edit.mapKey {κ' : Type} (f : κ → κ') : Edit κ α → Edit κ' α
  | .insert key a => .insert (f key) a
  | .delete key a => .delete (f key) a

variable {key : κ}

theorem elementsUnder_effect (held : Multiset (κ × α)) (edit : Edit κ α) (key : κ) :
    elementsUnder (edit.effect held) key =
      if edit.key = key then edit.change (elementsUnder held key)
      else elementsUnder held key := by
  cases edit with
  | insert key' a =>
      show elementsUnder ((key', a) ::ₘ held) key = ite (key' = key) _ _
      split
      · rw [‹key' = key›, elementsUnder_cons_self]
        rfl
      · exact elementsUnder_cons_of_ne (Ne.symm ‹¬key' = key›) a
  | delete key' a =>
      show elementsUnder (held.erase (key', a)) key = ite (key' = key) _ _
      split
      · rw [‹key' = key›, elementsUnder_erase_self]
        rfl
      · exact elementsUnder_erase_of_ne (Ne.symm ‹¬key' = key›) a

/-- Only the edits of a key matter for it. -/
theorem elementsUnder_remaining (edits : List (Edit κ α)) (key : κ) :
    elementsUnder (remaining edits) key =
      (edits.filter fun edit => edit.key = key).foldl Edit.change 0 := by
  have hfold : ∀ held : Multiset (κ × α), elementsUnder (edits.foldl Edit.effect held) key =
      (edits.filter fun edit => edit.key = key).foldl Edit.change (elementsUnder held key) := by
    induction edits with
    | nil => exact fun _ => rfl
    | cons edit edits ih =>
        intro held
        rw [List.foldl_cons, ih, elementsUnder_effect, List.filter_cons]
        by_cases hkey : edit.key = key
        · rw [if_pos hkey, if_pos (decide_eq_true hkey)]
          rfl
        · rw [if_neg hkey, if_neg (by rwa [decide_eq_true_iff])]
  exact hfold 0

/-- Keys that no other key of the edits is mapped to. -/
theorem elementsUnder_mapKey {κ' : Type} [DecidableEq κ'] {f : κ → κ'} {edits : List (Edit κ α)}
    (h : ∀ edit ∈ edits, f edit.key = f key → edit.key = key) :
    elementsUnder (remaining (edits.map (Edit.mapKey f))) (f key) =
      elementsUnder (remaining edits) key := by
  have hkey : ∀ edit : Edit κ α, (edit.mapKey f).key = f edit.key := by
    rintro (_ | _)
    · rfl
    · rfl
  have hchange : ∀ elements (edit : Edit κ α), (edit.mapKey f).change elements =
      edit.change elements := by
    rintro elements (_ | _)
    · rfl
    · rfl
  have hsame : (edits.filter fun edit => (edit.mapKey f).key = f key) =
      edits.filter fun edit => edit.key = key := by
    apply List.filter_congr
    intro edit hedit
    rw [hkey]
    exact decide_eq_decide.mpr ⟨h edit hedit, congrArg f⟩
  rw [elementsUnder_remaining, elementsUnder_remaining, List.filter_map, List.foldl_map]
  show (edits.filter fun edit => (edit.mapKey f).key = f key).foldl _ _ = _
  rw [hsame]
  simp only [hchange]

end Keys

end PostgressRs.Lib.Postings
