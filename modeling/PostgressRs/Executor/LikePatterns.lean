import PostgressRs.Executor.Grouping
import PostgressRs.Lib.Wildcards

/-!
`LIKE` and `ILIKE` look for the pattern without its percent signs anywhere in the text.
-/

namespace PostgressRs.Executor.LikePatterns

open PostgressRs.Executor.Evaluation
open PostgressRs.Executor.Grouping
open PostgressRs.Lib.Wildcards
open PostgressRs.Security.RowSecurity (boolText)
open PostgressRs.Sql.Ast
open PostgressRs.Types

section Patterns

/-- What SQL says of a text and a pattern. -/
def Like (s p : String) : Prop := Matches '%' '_' p.toList s.toList

instance (s p : String) : Decidable (Like s p) :=
  decidable_of_iff _ (matchesOf_iff (by decide))

variable [Scalars]

/-- Up to case. -/
def ILike (s p : String) : Prop := Like (toLowercase s) (toLowercase p)

/-- Cases do not change across a percent sign, and no wildcard comes from another letter. -/
class LawfulCase : Prop where
  lower_empty : toLowercase "" = ""
  lower_percent (s t : String) :
    toLowercase (s ++ "%" ++ t) = toLowercase s ++ "%" ++ toLowercase t
  lower_plain (s : String) :
    Plain '%' '_' s.toList → Plain '%' '_' (toLowercase s).toList

def text (s : String) : Expr := .literal (.string s)

/-- An operator tells the texts that are like the pattern, for both evaluators. -/
def Decides (row : List String) (desc : Option TupleDesc) (op : BinaryOperator)
    (like : String → String → Prop) (p : String) : Prop :=
  ∀ s, (evaluateExpr row desc (.binaryOp (text s) op (text p)) = some "true" ↔ like s p) ∧
    (evalBinaryOp s op p = "true" ↔ like s p)

variable {row : List String} {desc : Option TupleDesc} {p : String}

omit [Scalars] in
theorem boolText_eq_true {b : Bool} : boolText b = "true" ↔ b = true := by
  cases b <;> decide

theorem decides_like_iff :
    Decides row desc .like Like p ↔
      ∀ s, Matches '%' '_' p.toList s ↔ withoutMany '%' p.toList <:+: s := by
  have hresult : ∀ s, contains s (withoutPercents p) = true ↔
      withoutMany '%' p.toList <:+: s.toList := fun s => decide_eq_true_iff
  have hboth : ∀ s, ((evaluateExpr row desc (.binaryOp (text s) .like (text p)) = some "true" ↔
        Like s p) ∧ (evalBinaryOp s .like p = "true" ↔ Like s p)) ↔
      (withoutMany '%' p.toList <:+: s.toList ↔ Matches '%' '_' p.toList s.toList) := by
    intro s
    have hvalue : evaluateExpr row desc (.binaryOp (text s) .like (text p)) =
        some (boolText (contains s (withoutPercents p))) := rfl
    rw [hvalue, Option.some.injEq, evalBinaryOp, boolText_eq_true, hresult, and_self]
    rfl
  constructor
  · intro h s
    have hs := (hboth (String.ofList s)).mp (h _)
    rw [String.toList_ofList] at hs
    exact hs.symm
  · intro h s
    exact (hboth s).mpr (h s.toList).symm

omit [Scalars] in
theorem exists_char_ne (a b : Char) : ∃ c, c ≠ a ∧ c ≠ b := by
  by_contra hnone
  have hsub : ['0', '1', '2'] ⊆ [a, b] := by
    intro c _
    by_contra hc
    rw [List.mem_pair, not_or] at hc
    exact hnone ⟨c, hc⟩
  have hlength := (List.subperm_of_subset (by decide) hsub).length_le
  simp at hlength

end Patterns

section Cases

variable [Scalars]

def lowered (l : List Char) : List Char := (toLowercase (String.ofList l)).toList

variable [LawfulCase]

theorem lowered_nil : lowered [] = [] := by
  rw [lowered, String.ofList_nil, LawfulCase.lower_empty]
  rfl

theorem lowered_percent (l r : List Char) :
    lowered (l ++ '%' :: r) = lowered l ++ '%' :: lowered r := by
  have hsplit : String.ofList (l ++ '%' :: r) = String.ofList l ++ "%" ++ String.ofList r := by
    apply String.ext
    simp
  rw [lowered, hsplit, LawfulCase.lower_percent]
  simp [lowered]

theorem lowered_leading (i : Nat) (r : List Char) :
    lowered (List.replicate i '%' ++ r) = List.replicate i '%' ++ lowered r := by
  induction i with
  | zero => rfl
  | succ i ih =>
      have hfirst := lowered_percent [] (List.replicate i '%' ++ r)
      rw [lowered_nil, List.nil_append, List.nil_append, ih] at hfirst
      exact hfirst

theorem lowered_trailing (l : List Char) (j : Nat) :
    lowered (l ++ List.replicate j '%') = lowered l ++ List.replicate j '%' := by
  cases j with
  | zero => rw [List.replicate_zero, List.append_nil, List.append_nil]
  | succ j =>
      have hrest := lowered_leading j []
      rw [lowered_nil, List.append_nil] at hrest
      rw [List.replicate_succ, lowered_percent, hrest]

theorem plain_lowered {w : List Char} (hw : Plain '%' '_' w) : Plain '%' '_' (lowered w) :=
  LawfulCase.lower_plain _ (by rwa [String.toList_ofList])

/-- What is left of the pattern may be lowered before or after the percent signs go. -/
theorem substringPattern_lowered {p : List Char} (hp : SubstringPattern '%' '_' p) :
    SubstringPattern '%' '_' (lowered p) ∧
      withoutMany '%' (lowered p) = lowered (withoutMany '%' p) := by
  obtain ⟨i, j, w, rfl, hw, hj⟩ := hp
  rw [lowered_leading, lowered_trailing, hw.withoutMany_around,
    (plain_lowered hw).withoutMany_around]
  refine ⟨⟨i, j, lowered w, rfl, plain_lowered hw, ?_⟩, rfl⟩
  intro hzero
  rw [hj hzero, lowered_nil]

variable {row : List String} {desc : Option TupleDesc} {p : String}

theorem decides_iLike (hp : SubstringPattern '%' '_' p.toList) :
    Decides row desc .iLike ILike p := by
  obtain ⟨hlowered, hwithout⟩ := substringPattern_lowered hp
  have hpattern : lowered p.toList = (toLowercase p).toList := by
    rw [lowered, String.ofList_toList]
  have hlike : ∀ s, ILike s p ↔ contains (toLowercase s)
      (toLowercase (String.ofList (withoutPercents p))).toList = true := by
    intro s
    rw [ILike, Like, ← hpattern, hlowered.matches_iff (by decide), hwithout]
    exact decide_eq_true_iff.symm
  intro s
  have hvalue : evaluateExpr row desc (.binaryOp (text s) .iLike (text p)) =
      some (boolText (contains (toLowercase s)
        (toLowercase (String.ofList (withoutPercents p))).toList)) := rfl
  rw [hvalue, Option.some.injEq, evalBinaryOp, boolText_eq_true, hlike, and_self]

/-- Both operators are right on all texts for the patterns with percent signs around a text
without wildcards, and for no others. -/
theorem like_patterns_iff (row : List String) (desc : Option TupleDesc) (p : String) :
    Decides row desc .like Like p ∧ Decides row desc .iLike ILike p ↔
      SubstringPattern '%' '_' p.toList := by
  have hiff : Decides row desc .like Like p ↔ SubstringPattern '%' '_' p.toList :=
    decides_like_iff.trans (substringPattern_iff (by decide) exists_char_ne)
  constructor
  · intro h
    exact hiff.mp h.1
  · intro hp
    exact ⟨hiff.mpr hp, decides_iLike hp⟩

end Cases

section Texts

attribute [local instance] wholeNumbers

theorem toLower_eq (c : Char) : c.toLower = c ∨ 97 ≤ c.toLower.toNat := by
  unfold Char.toLower
  split
  · rename_i h
    right
    have hlow : 65 ≤ c.val.toNat := UInt32.le_iff_toNat_le.mp h.1
    have hhigh : c.val.toNat ≤ 90 := UInt32.le_iff_toNat_le.mp h.2
    change 97 ≤ (c.val + 32).toNat
    rw [UInt32.toNat_add]
    change 97 ≤ (c.val.toNat + 32) % 2 ^ 32
    omega
  · exact .inl rfl

theorem toLower_ne {c d : Char} (hd : d.toNat < 97) (h : c ≠ d) : c.toLower ≠ d := by
  rintro rfl
  rcases toLower_eq c with heq | hle
  · exact h heq.symm
  · omega

theorem toList_toLowercase (s : String) :
    (toLowercase s).toList = s.toList.map Char.toLower :=
  String.toList_ofList

theorem lawful_wholeNumbers : LawfulCase where
  lower_empty := rfl
  lower_percent s t := by
    apply String.ext
    rw [toList_toLowercase, String.toList_append, String.toList_append, List.map_append,
      List.map_append, String.toList_append, String.toList_append, toList_toLowercase,
      toList_toLowercase]
    rfl
  lower_plain s hs := by
    intro c hc
    rw [toList_toLowercase, List.mem_map] at hc
    obtain ⟨d, hd, rfl⟩ := hc
    exact ⟨toLower_ne (by decide) (hs d hd).1, toLower_ne (by decide) (hs d hd).2⟩

/-- `%b%`. -/
theorem like_patterns_iff_inside :
    SubstringPattern '%' '_' "%b%".toList ∧ Decides [] none .like Like "%b%" := by
  have hp : SubstringPattern '%' '_' "%b%".toList :=
    ⟨0, 1, ['b'], by decide, by simp [Plain], by decide⟩
  exact ⟨hp, ((@like_patterns_iff wholeNumbers lawful_wholeNumbers [] none "%b%").mpr hp).1⟩

/-- `'ba' LIKE 'a%'` is true, and `'ba'` does not begin with `a`. -/
theorem like_ignores_beginning :
    evaluateExpr [] none (.binaryOp (text "ba") .like (text "a%")) = some "true" ∧
      ¬Like "ba" "a%" := by
  constructor
  · decide +kernel
  · decide +kernel

end Texts

end PostgressRs.Executor.LikePatterns
