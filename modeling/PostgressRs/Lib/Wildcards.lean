import Mathlib.Data.List.Infix
import Mathlib.Data.List.Basic
import Mathlib.Tactic.Common

/-!
Patterns over lists: `many` stands for any list, `one` for any element, and everything
else for itself.
-/

namespace PostgressRs.Lib.Wildcards

section Matching

variable {α : Type} (many one : α)

inductive Matches : List α → List α → Prop
  | nil : Matches [] []
  | many {p s : List α} (u : List α) : Matches p s → Matches (many :: p) (u ++ s)
  | one {p s : List α} (a : α) : Matches p s → Matches (one :: p) (a :: s)
  | exact {p s : List α} {a : α} : a ≠ many → a ≠ one → Matches p s → Matches (a :: p) (a :: s)

variable {many one}

theorem matches_nil {s : List α} : Matches many one [] s ↔ s = [] := by
  constructor
  · intro h
    cases h
    rfl
  · rintro rfl
    exact .nil

theorem matches_many (hne : many ≠ one) {p s : List α} :
    Matches many one (many :: p) s ↔ ∃ u t, s = u ++ t ∧ Matches many one p t := by
  constructor
  · intro h
    cases h with
    | @many _ t u h => exact ⟨u, t, rfl, h⟩
    | one a h => exact absurd rfl hne
    | exact h => exact absurd rfl h
  · rintro ⟨u, t, rfl, h⟩
    exact .many u h

theorem matches_cons {c : α} (hmany : c ≠ many) {p s : List α} :
    Matches many one (c :: p) s ↔
      ∃ a t, s = a :: t ∧ (c = one ∨ c = a) ∧ Matches many one p t := by
  constructor
  · intro h
    cases h with
    | many u h => exact absurd rfl hmany
    | @one _ t a h => exact ⟨a, t, rfl, .inl rfl, h⟩
    | @exact _ t _ _ _ h => exact ⟨c, t, rfl, .inr rfl, h⟩
  · rintro ⟨a, t, rfl, hc, h⟩
    rcases eq_or_ne c one with rfl | hone
    · exact .one a h
    · obtain rfl := hc.resolve_left hone
      exact .exact hmany hone h

theorem matches_append {p q s t : List α} (hp : Matches many one p s) (hq : Matches many one q t) :
    Matches many one (p ++ q) (s ++ t) := by
  induction hp with
  | nil => exact hq
  | many u _ ih =>
      rw [List.append_assoc]
      exact .many u ih
  | one a _ ih => exact .one a ih
  | exact h₁ h₂ _ ih => exact .exact h₁ h₂ ih

theorem matches_append_iff (hne : many ≠ one) {p q s : List α} :
    Matches many one (p ++ q) s ↔
      ∃ u v, s = u ++ v ∧ Matches many one p u ∧ Matches many one q v := by
  constructor
  · intro h
    induction p generalizing s with
    | nil => exact ⟨[], s, rfl, .nil, h⟩
    | cons c p ih =>
        rcases eq_or_ne c many with rfl | hmany
        · obtain ⟨u, t, rfl, ht⟩ := (matches_many hne).mp h
          obtain ⟨u', v, rfl, hp, hq⟩ := ih ht
          exact ⟨u ++ u', v, (List.append_assoc u u' v).symm, .many u hp, hq⟩
        · obtain ⟨a, t, rfl, hc, ht⟩ := (matches_cons hmany).mp h
          obtain ⟨u, v, rfl, hp, hq⟩ := ih ht
          exact ⟨a :: u, v, rfl, (matches_cons hmany).mpr ⟨a, u, rfl, hc, hp⟩, hq⟩
  · rintro ⟨u, v, rfl, hp, hq⟩
    exact matches_append hp hq

variable [DecidableEq α]

variable (many one) in
def matchesOf : List α → List α → Bool
  | [], s => s.isEmpty
  | c :: p, s =>
      if c = many then s.tails.any (matchesOf p)
      else (s.head?.any fun a => c = one || c = a) && matchesOf p s.tail

theorem matchesOf_iff (hne : many ≠ one) {p s : List α} :
    matchesOf many one p s = true ↔ Matches many one p s := by
  induction p generalizing s with
  | nil => rw [matchesOf, List.isEmpty_iff, matches_nil]
  | cons c p ih =>
      rw [matchesOf]
      split
      · rename_i hmany
        rw [hmany, List.any_eq_true, matches_many hne]
        constructor
        · rintro ⟨t, ht, hmatch⟩
          obtain ⟨u, rfl⟩ := (List.mem_tails _ _).mp ht
          exact ⟨u, t, rfl, ih.mp hmatch⟩
        · rintro ⟨u, t, rfl, h⟩
          exact ⟨t, (List.mem_tails _ _).mpr ⟨u, rfl⟩, ih.mpr h⟩
      · rename_i hmany
        rw [matches_cons hmany, Bool.and_eq_true, ih]
        cases s with
        | nil => simp
        | cons a s => simp

end Matching

section Plain

variable {α : Type} {many one : α}

/-- No wildcards. -/
def Plain (many one : α) (w : List α) : Prop := ∀ a ∈ w, a ≠ many ∧ a ≠ one

theorem Plain.matches_append {w p s : List α} (hw : Plain many one w) :
    Matches many one (w ++ p) s ↔ ∃ t, s = w ++ t ∧ Matches many one p t := by
  induction w generalizing s with
  | nil =>
      constructor
      · intro h
        exact ⟨s, rfl, h⟩
      · rintro ⟨t, rfl, h⟩
        exact h
  | cons a w ih =>
      obtain ⟨ha, hw⟩ := List.forall_mem_cons.mp hw
      constructor
      · intro h
        rw [List.cons_append] at h
        cases h with
        | many u h => exact absurd rfl ha.1
        | one b h => exact absurd rfl ha.2
        | exact _ _ h =>
            obtain ⟨t, rfl, ht⟩ := (ih hw).mp h
            exact ⟨t, rfl, ht⟩
      · rintro ⟨t, rfl, ht⟩
        exact .exact ha.1 ha.2 ((ih hw).mpr ⟨t, rfl, ht⟩)

/-- Wildcards for lists one after another are one wildcard. -/
theorem matches_replicate (hne : many ≠ one) (n : Nat) {p s : List α} :
    Matches many one (List.replicate (n + 1) many ++ p) s ↔
      ∃ u t, s = u ++ t ∧ Matches many one p t := by
  induction n generalizing s with
  | zero => exact matches_many hne
  | succ n ih =>
      rw [List.replicate_succ, List.cons_append, matches_many hne]
      constructor
      · rintro ⟨u, t, rfl, h⟩
        obtain ⟨u', t', rfl, h'⟩ := ih.mp h
        exact ⟨u ++ u', t', (List.append_assoc u u' t').symm, h'⟩
      · rintro ⟨u, t, rfl, h⟩
        exact ⟨u, t, rfl, ih.mpr ⟨[], t, rfl, h⟩⟩

/-- The pattern between two wildcards for lists. -/
theorem Plain.matches_infix (hne : many ≠ one) {w s : List α} (hw : Plain many one w) (i : Nat)
    {j : Nat} (hj : j = 0 → w = []) :
    Matches many one (List.replicate (i + 1) many ++ (w ++ List.replicate j many)) s ↔
      w <:+: s := by
  rw [matches_replicate hne]
  cases j with
  | zero =>
      rw [hj rfl]
      refine iff_of_true ⟨s, [], (List.append_nil s).symm, .nil⟩ (List.nil_infix)
  | succ j =>
      constructor
      · rintro ⟨u, t, rfl, h⟩
        obtain ⟨t', rfl, _⟩ := hw.matches_append.mp h
        exact ⟨u, t', List.append_assoc u w t'⟩
      · rintro ⟨u, t, rfl⟩
        refine ⟨u, w ++ t, List.append_assoc u w t, hw.matches_append.mpr ⟨t, rfl, ?_⟩⟩
        rw [← List.append_nil (List.replicate (j + 1) many), matches_replicate hne]
        exact ⟨t, [], (List.append_nil t).symm, .nil⟩

end Plain

section Decomposition

variable {α : Type}

theorem exists_leading (many : α) (p : List α) :
    ∃ i rest, p = List.replicate i many ++ rest ∧ rest.head? ≠ some many := by
  induction p with
  | nil => exact ⟨0, [], rfl, Option.some_ne_none many |>.symm⟩
  | cons a p ih =>
      rcases eq_or_ne a many with rfl | hne
      · obtain ⟨i, rest, rfl, hrest⟩ := ih
        exact ⟨i + 1, rest, rfl, hrest⟩
      · exact ⟨0, a :: p, rfl, fun h => hne (Option.some.inj h)⟩

theorem exists_trailing (many : α) (p : List α) :
    ∃ j rest, p = rest ++ List.replicate j many ∧ rest.getLast? ≠ some many := by
  obtain ⟨j, rest, hp, hrest⟩ := exists_leading many p.reverse
  refine ⟨j, rest.reverse, ?_, by rwa [List.getLast?_reverse]⟩
  rw [← List.reverse_reverse p, hp, List.reverse_append, List.reverse_replicate]

/-- An element between two texts is the first of the second or the last of the first one if
both texts stand side by side somewhere. -/
theorem eq_of_infix_insert {u v : List α} {a b c : α}
    (h : u ++ [a] ++ b :: v <:+: u ++ [a] ++ c :: b :: v) : c = b ∨ c = a := by
  obtain ⟨x, y, heq⟩ := h
  have hlength := congrArg List.length heq
  simp only [List.length_append, List.length_cons, List.length_nil] at hlength
  rcases Nat.eq_zero_or_pos x.length with hx | hx
  · left
    obtain rfl := List.length_eq_zero_iff.mp hx
    rw [List.nil_append, List.append_assoc, List.append_cancel_left_eq, List.cons_append] at heq
    exact (List.cons.inj heq).1.symm
  · right
    obtain rfl : y = [] := List.length_eq_zero_iff.mp (by omega)
    obtain ⟨d, rfl⟩ := List.length_eq_one_iff.mp (show x.length = 1 by omega)
    have hsplit : [d] ++ (u ++ [a]) ++ (b :: v) = u ++ [a] ++ [c] ++ (b :: v) := by
      simpa using heq
    have hinit := congrArg List.getLast? (List.append_cancel_right hsplit)
    rw [← List.append_assoc, List.getLast?_concat, List.getLast?_concat] at hinit
    exact (Option.some.inj hinit).symm

end Decomposition

section Substrings

variable {α : Type} [DecidableEq α] {many one : α}

def withoutMany (many : α) (p : List α) : List α := p.filter (· ≠ many)

/-- Wildcards for lists around a text without wildcards. -/
def SubstringPattern (many one : α) (p : List α) : Prop :=
  ∃ i j w, p = List.replicate (i + 1) many ++ (w ++ List.replicate j many) ∧
    Plain many one w ∧ (j = 0 → w = [])

theorem withoutMany_replicate (n : Nat) : withoutMany many (List.replicate n many) = [] := by
  rw [withoutMany, List.filter_eq_nil_iff]
  intro a ha
  rw [List.eq_of_mem_replicate ha]
  simp

theorem Plain.withoutMany_eq {w : List α} (hw : Plain many one w) : withoutMany many w = w := by
  rw [withoutMany, List.filter_eq_self]
  intro a ha
  exact decide_eq_true (hw a ha).1

theorem Plain.withoutMany_around {w : List α} (hw : Plain many one w) (i j : Nat) :
    withoutMany many (List.replicate i many ++ (w ++ List.replicate j many)) = w := by
  rw [withoutMany, List.filter_append, List.filter_append]
  change withoutMany many _ ++ (withoutMany many _ ++ withoutMany many _) = w
  rw [withoutMany_replicate, withoutMany_replicate, hw.withoutMany_eq, List.nil_append,
    List.append_nil]

theorem SubstringPattern.matches_iff (hne : many ≠ one) {p s : List α}
    (hp : SubstringPattern many one p) :
    Matches many one p s ↔ withoutMany many p <:+: s := by
  obtain ⟨i, j, w, rfl, hw, hj⟩ := hp
  rw [hw.withoutMany_around, hw.matches_infix hne i hj]

/-- A wildcard for an element stands for any other element as well. -/
def filled (many one z : α) (p : List α) : List α :=
  (withoutMany many p).map fun a => if a = one then z else a

theorem matches_filled (z : α) (p : List α) : Matches many one p (filled many one z p) := by
  induction p with
  | nil => exact .nil
  | cons a p ih =>
      rcases eq_or_ne a many with rfl | hmany
      · rw [filled, withoutMany, List.filter_cons_of_neg (by simp)]
        exact .many [] ih
      · have hkept : withoutMany many (a :: p) = a :: withoutMany many p :=
          List.filter_cons_of_pos (decide_eq_true hmany)
        rw [filled, hkept, List.map_cons]
        split
        · rename_i hone
          rw [hone]
          exact .one z ih
        · rename_i hone
          exact .exact hmany hone ih

theorem matches_withoutMany (p : List α) :
    Matches many one p (withoutMany many p) := by
  have h : Matches many one p (filled many one one p) := matches_filled one p
  have hid : filled many one one p = withoutMany many p := by
    rw [filled]
    apply List.map_id''
    intro a
    split
    · rename_i h
      exact h.symm
    · rfl
  rwa [hid] at h

variable (hne : many ≠ one) (hfresh : ∀ a b : α, ∃ c, c ≠ a ∧ c ≠ b) {p : List α}
  (h : ∀ s, Matches many one p s ↔ withoutMany many p <:+: s)

include hne hfresh h in
theorem one_not_mem : one ∉ p := by
  intro hone
  obtain ⟨z, hz, _⟩ := hfresh one one
  have hlength : (withoutMany many p).length = (filled many one z p).length :=
    (List.length_map _).symm
  have heq := ((h _).mp (matches_filled z p)).eq_of_length hlength
  have hmem : one ∈ withoutMany many p := List.mem_filter.mpr ⟨hone, decide_eq_true hne.symm⟩
  rw [heq] at hmem
  obtain ⟨a, _, ha⟩ := List.mem_map.mp hmem
  split at ha
  · exact hz ha
  · contradiction

include hfresh h in
theorem exists_head : ∃ q, p = many :: q ∨ one ∈ p := by
  cases p with
  | nil =>
      obtain ⟨c, _, _⟩ := hfresh one one
      have hnil := (h [c]).mpr List.nil_infix
      rw [matches_nil] at hnil
      cases hnil
  | cons a q =>
      rcases eq_or_ne a many with rfl | hmany
      · exact ⟨q, .inl rfl⟩
      · obtain ⟨c, hc, _⟩ := hfresh a a
        have hmatch := (h (c :: withoutMany many (a :: q))).mpr (List.suffix_cons _ _).isInfix
        obtain ⟨b, t, hb, heq, _⟩ := (matches_cons hmany).mp hmatch
        obtain rfl := (List.cons.inj hb).1
        rcases heq with rfl | rfl
        · exact ⟨q, .inr List.mem_cons_self⟩
        · exact absurd rfl hc

include hne hfresh h in
theorem getLast_eq : p.getLast? = some many ∨ one ∈ p := by
  rcases List.eq_nil_or_concat p with rfl | ⟨q, a, rfl⟩
  · obtain ⟨_, hq | hq⟩ := exists_head hfresh h
    · cases hq
    · exact .inr hq
  · rw [List.concat_eq_append] at h ⊢
    rcases eq_or_ne a many with rfl | hmany
    · exact .inl (List.getLast?_concat)
    · obtain ⟨c, hc, _⟩ := hfresh a a
      have hmatch := (h (withoutMany many (q ++ [a]) ++ [c])).mpr (List.prefix_append _ _).isInfix
      obtain ⟨u, v, huv, _, hv⟩ := (matches_append_iff hne).mp hmatch
      obtain ⟨b, t, rfl, heq, ht⟩ := (matches_cons hmany).mp hv
      obtain rfl := matches_nil.mp ht
      have hlast := congrArg List.getLast? huv
      rw [List.getLast?_concat, List.getLast?_concat, Option.some.injEq] at hlast
      rcases heq with rfl | rfl
      · exact .inr (by simp)
      · exact absurd hlast hc

include hfresh h in
/-- No wildcard for lists stands between two texts. -/
theorem withoutMany_eq_nil {q r : List α} (hp : p = q ++ many :: r) :
    withoutMany many q = [] ∨ withoutMany many r = [] := by
  rcases List.eq_nil_or_concat (withoutMany many q) with hq | ⟨u, a, hq⟩
  · exact .inl hq
  cases hr : withoutMany many r with
  | nil => exact .inr rfl
  | cons b v =>
      rw [List.concat_eq_append] at hq
      obtain ⟨c, hca, hcb⟩ := hfresh a b
      have hmatch : Matches many one p (u ++ [a] ++ c :: b :: v) := by
        rw [hp, ← hq, ← hr]
        exact matches_append (matches_withoutMany q) (.many [c] (matches_withoutMany r))
      have hwithout : withoutMany many p = u ++ [a] ++ b :: v := by
        rw [hp, withoutMany, List.filter_append, List.filter_cons_of_neg (by simp)]
        exact congrArg₂ _ hq hr
      have hinfix := (h _).mp hmatch
      rw [hwithout] at hinfix
      rcases eq_of_infix_insert hinfix with rfl | rfl
      · exact absurd rfl hcb
      · exact absurd rfl hca

theorem eq_many_of_withoutMany {q : List α} (hq : withoutMany many q = []) : ∀ a ∈ q, a = many := by
  intro a ha
  have hfilter := List.filter_eq_nil_iff.mp hq a ha
  simpa using hfilter

/-- The matched texts are those that contain what is left of the pattern for such patterns
only. -/
theorem substringPattern_iff (hne : many ≠ one) (hfresh : ∀ a b : α, ∃ c, c ≠ a ∧ c ≠ b)
    {p : List α} :
    (∀ s, Matches many one p s ↔ withoutMany many p <:+: s) ↔ SubstringPattern many one p := by
  refine ⟨?_, fun hp s => hp.matches_iff hne⟩
  intro h
  have hone := one_not_mem hne hfresh h
  obtain ⟨q, hq⟩ := exists_head hfresh h
  have hlast := (getLast_eq hne hfresh h).resolve_right hone
  obtain ⟨i, rest, hp, hhead⟩ := exists_leading many p
  obtain ⟨j, w, rfl, hwlast⟩ := exists_trailing many rest
  cases i with
  | zero =>
      rw [hp, List.replicate_zero, List.nil_append] at hq
      rw [hq.resolve_right (by rwa [hp] at hone)] at hhead
      exact absurd rfl hhead
  | succ i =>
      refine ⟨i, j, w, hp, ?_, ?_⟩
      · intro a ha
        constructor
        · rintro rfl
          obtain ⟨u, v, rfl⟩ := List.append_of_mem ha
          have hsplit : p = (List.replicate (i + 1) a ++ u) ++ a :: (v ++ List.replicate j a) := by
            rw [hp]
            simp
          rcases withoutMany_eq_nil hfresh h hsplit with hu | hv
          · have hall := eq_many_of_withoutMany hu
            cases u with
            | nil => exact hhead rfl
            | cons b u =>
                rw [hall b (by simp)] at hhead
                exact hhead rfl
          · have hall := eq_many_of_withoutMany hv
            rcases List.eq_nil_or_concat v with rfl | ⟨v, b, rfl⟩
            · exact hwlast (List.getLast?_concat)
            · rw [hall b (by simp), List.concat_eq_append, ← List.cons_append, ← List.append_assoc,
                List.getLast?_concat] at hwlast
              exact hwlast rfl
        · rintro rfl
          rw [hp] at hone
          exact hone (by simp [ha])
      · rintro rfl
        rcases List.eq_nil_or_concat w with rfl | ⟨w, b, rfl⟩
        · rfl
        · rw [hp, List.replicate_zero, List.append_nil, List.concat_eq_append, ← List.append_assoc,
            List.getLast?_concat] at hlast
          rw [List.concat_eq_append, List.getLast?_concat] at hwlast
          exact absurd hlast hwlast

end Substrings

end PostgressRs.Lib.Wildcards
