import PostgressRs.Btree.GinQueries
import PostgressRs.Types.TextSearch

/-!
What a text vector holds: the loop of `to_tsvector` keeps one lexeme for each
word that it has seen, with the positions of its pieces in order.
-/

namespace PostgressRs.Types.VectorInvariant

open PostgressRs.Btree.GinIndex
open PostgressRs.Btree.GinQueries
open PostgressRs.Lib.Comparisons
open PostgressRs.Server.Queries
open PostgressRs.Types.TextSearch

/-- The word `word` is recorded at position `pos`. -/
def Recorded (lexemes : List TsLexeme) (word : String) (pos : UInt32) : Prop :=
  ∃ l ∈ lexemes, l.text = word ∧ ∃ p ∈ l.positions, p.word = pos

section Push

variable (lexemes : List TsLexeme) (word : String) (position : TsPosition)

theorem map_text_pushPosition :
    (pushPosition lexemes word position).map TsLexeme.text =
      if word ∈ lexemes.map TsLexeme.text then lexemes.map TsLexeme.text
      else lexemes.map TsLexeme.text ++ [word] := by
  induction lexemes with
  | nil => rfl
  | cons existing rest ih =>
      rw [pushPosition]
      by_cases hsame : existing.text = word
      · subst hsame
        rw [if_pos rfl, if_pos (by simp)]
        rfl
      · rw [if_neg hsame, List.map_cons, ih]
        by_cases hmem : word ∈ rest.map TsLexeme.text
        · rw [if_pos hmem, List.map_cons, if_pos (List.mem_cons_of_mem _ hmem)]
        · have hnot : word ∉ (existing :: rest).map TsLexeme.text := by
            rw [List.map_cons, List.mem_cons, not_or]
            exact ⟨fun h => hsame h.symm, hmem⟩
          rw [if_neg hmem, if_neg hnot]
          rfl

variable {lexemes word position}

theorem nodup_pushPosition (h : (lexemes.map TsLexeme.text).Nodup) :
    ((pushPosition lexemes word position).map TsLexeme.text).Nodup := by
  rw [map_text_pushPosition]
  split
  · exact h
  · exact List.nodup_append.mpr ⟨h, List.nodup_singleton _, by simp_all⟩

/-- A lexeme afterwards is one from before, the new one, or one that got longer. -/
theorem mem_pushPosition {l : TsLexeme} (h : l ∈ pushPosition lexemes word position) :
    l ∈ lexemes ∨ l = ⟨word, [position]⟩ ∨
      ∃ existing ∈ lexemes, existing.text = word ∧
        l = { existing with positions := existing.positions ++ [position] } := by
  induction lexemes with
  | nil => exact .inr (.inl (List.mem_singleton.mp h))
  | cons existing rest ih =>
      rw [pushPosition] at h
      by_cases hsame : existing.text = word
      · rw [if_pos hsame] at h
        rcases List.mem_cons.mp h with rfl | hrest
        · exact .inr (.inr ⟨existing, List.mem_cons_self, hsame, rfl⟩)
        · exact .inl (List.mem_cons_of_mem _ hrest)
      · rw [if_neg hsame] at h
        rcases List.mem_cons.mp h with rfl | hrest
        · exact .inl List.mem_cons_self
        · rcases ih hrest with hold | hnew | ⟨old, hold, htext, rfl⟩
          · exact .inl (List.mem_cons_of_mem _ hold)
          · exact .inr (.inl hnew)
          · exact .inr (.inr ⟨old, List.mem_cons_of_mem _ hold, htext, rfl⟩)

theorem recorded_cons {l : TsLexeme} {lexemes : List TsLexeme} {other : String} {pos : UInt32} :
    Recorded (l :: lexemes) other pos ↔
      (l.text = other ∧ ∃ p ∈ l.positions, p.word = pos) ∨ Recorded lexemes other pos := by
  unfold Recorded
  rw [List.exists_mem_cons_iff]

theorem recorded_pushPosition {other : String} {pos : UInt32} :
    Recorded (pushPosition lexemes word position) other pos ↔
      Recorded lexemes other pos ∨ other = word ∧ pos = position.word := by
  induction lexemes with
  | nil => simp [pushPosition, Recorded, eq_comm]
  | cons existing rest ih =>
      rw [pushPosition]
      by_cases hsame : existing.text = word
      · subst hsame
        rw [if_pos rfl, recorded_cons, recorded_cons]
        simp only [List.mem_append, List.mem_singleton]
        grind
      · rw [if_neg hsame, recorded_cons, recorded_cons, ih, or_assoc]

end Push

section Contents

variable [Letters]

/-- A piece in lower case. -/
def lowered (piece : List Char) : String := toLowercase (String.ofList piece)

/-- The pieces that are not passed over. -/
def Kept (piece : List Char) : Prop := piece ≠ [] ∧ lowered piece ∉ stopWords

theorem lowered_eq_empty {piece : List Char} : lowered piece = "" ↔ piece = [] := by
  rw [lowered, toLowercase_eq_empty]
  constructor
  · intro h
    rw [← @String.toList_ofList piece, h]
    rfl
  · rintro rfl
    rfl

theorem not_kept_iff {piece : List Char} :
    ¬ Kept piece ↔ lowered piece = "" ∨ lowered piece ∈ stopWords := by
  rw [Kept, lowered_eq_empty]
  tauto

section Loop

/-- The lexemes record the pieces seen so far. -/
structure Indexed (done : List (List Char)) (lexemes : List TsLexeme) : Prop where
  nodup : (lexemes.map TsLexeme.text).Nodup
  positions : ∀ l ∈ lexemes, l.positions ≠ [] ∧ l.positions.Pairwise fun p q => p.word < q.word
  recorded_iff : ∀ word pos, Recorded lexemes word pos ↔
    ∃ (i : Nat) (piece : List Char), done[i]? = some piece ∧ Kept piece ∧ lowered piece = word ∧
      pos.toNat = i + 1

theorem indexed_nil : Indexed [] [] := by
  refine ⟨List.nodup_nil, by simp, ?_⟩
  simp [Recorded]

variable {done rest : List (List Char)} {lexemes : List TsLexeme} {piece : List Char}
  {pos : UInt32}

/-- What is recorded of one more piece. -/
theorem exists_concat_iff {word : String} {p : UInt32} :
    (∃ (i : Nat) (piece' : List Char), (done ++ [piece])[i]? = some piece' ∧ Kept piece' ∧
        lowered piece' = word ∧ p.toNat = i + 1) ↔
      (∃ (i : Nat) (piece' : List Char), done[i]? = some piece' ∧ Kept piece' ∧
        lowered piece' = word ∧ p.toNat = i + 1) ∨
      Kept piece ∧ lowered piece = word ∧ p.toNat = done.length + 1 := by
  constructor
  · rintro ⟨i, piece', hget, hkept, hword, hp⟩
    by_cases hi : i < done.length
    · rw [List.getElem?_append_left hi] at hget
      exact .inl ⟨i, piece', hget, hkept, hword, hp⟩
    · have hlen := (List.getElem?_eq_some_iff.mp hget).1
      rw [List.length_append, List.length_singleton] at hlen
      obtain rfl : i = done.length := by omega
      rw [List.getElem?_concat_length, Option.some.injEq] at hget
      subst hget
      exact .inr ⟨hkept, hword, hp⟩
  · rintro (⟨i, piece', hget, hkept, hword, hp⟩ | ⟨hkept, hword, hp⟩)
    · have hi := (List.getElem?_eq_some_iff.mp hget).1
      exact ⟨i, piece', by rw [List.getElem?_append_left hi, hget], hkept, hword, hp⟩
    · exact ⟨done.length, piece, List.getElem?_concat_length, hkept, hword, hp⟩

theorem Indexed.skip (h : Indexed done lexemes) (hpiece : ¬ Kept piece) :
    Indexed (done ++ [piece]) lexemes := by
  refine ⟨h.nodup, h.positions, ?_⟩
  intro word p
  rw [h.recorded_iff, exists_concat_iff]
  exact (or_iff_left fun hlast => hpiece hlast.1).symm

/-- Every position recorded so far is that of a piece seen so far. -/
theorem Indexed.position_le (h : Indexed done lexemes) {l : TsLexeme} (hl : l ∈ lexemes)
    {p : TsPosition} (hp : p ∈ l.positions) : p.word.toNat ≤ done.length := by
  obtain ⟨i, piece', hget, -, -, hword⟩ :=
    (h.recorded_iff l.text p.word).mp ⟨l, hl, rfl, p, hp, rfl⟩
  have hi := (List.getElem?_eq_some_iff.mp hget).1
  omega

theorem Indexed.push (h : Indexed done lexemes) (hpiece : Kept piece)
    (hpos : pos.toNat = done.length + 1) (weight : TsWeight) :
    Indexed (done ++ [piece]) (pushPosition lexemes (lowered piece) ⟨pos, weight⟩) := by
  refine ⟨nodup_pushPosition h.nodup, ?_, ?_⟩
  · intro l hl
    rcases mem_pushPosition hl with hold | rfl | ⟨existing, hmem, -, rfl⟩
    · exact h.positions l hold
    · exact ⟨List.cons_ne_nil _ _, List.pairwise_singleton _ _⟩
    · refine ⟨by simp, List.pairwise_append.mpr
        ⟨(h.positions existing hmem).2, List.pairwise_singleton _ _, ?_⟩⟩
      intro p hp q hq
      rw [List.mem_singleton.mp hq, UInt32.lt_iff_toNat_lt]
      have hle := h.position_le hmem hp
      change p.word.toNat < pos.toNat
      omega
  · intro word p
    rw [recorded_pushPosition, h.recorded_iff, exists_concat_iff]
    have hlast : word = lowered piece ∧ p = pos ↔
        Kept piece ∧ lowered piece = word ∧ p.toNat = done.length + 1 := by
      rw [and_iff_right hpiece, eq_comm, ← hpos, UInt32.toNat_inj]
    exact or_congr Iff.rfl hlast

theorem pushPiece_spec (h : Indexed done lexemes) (hpos : pos.toNat = done.length + 1)
    (hroom : done.length + 1 < 0xFFFFFFFF) (piece : List Char) :
    ∃ lexemes', pushPiece (lexemes, pos) piece = some (lexemes', pos + 1) ∧
      Indexed (done ++ [piece]) lexemes' ∧ (pos + 1).toNat = (done ++ [piece]).length + 1 := by
  have hmax : pos ≠ 0xFFFFFFFF := by
    rintro rfl
    have hval : (0xFFFFFFFF : UInt32).toNat = 0xFFFFFFFF := rfl
    omega
  have hnext : (pos + 1).toNat = (done ++ [piece]).length + 1 := by
    have hone : (1 : UInt32).toNat = 1 := rfl
    rw [UInt32.toNat_add, hone, List.length_append, List.length_singleton]
    omega
  unfold pushPiece
  rw [if_neg hmax]
  by_cases hkept : Kept piece
  · have hword : ¬ (lowered piece = "" ∨ lowered piece ∈ stopWords) := by
      rw [← not_kept_iff]
      exact not_not.mpr hkept
    refine ⟨_, rfl, ?_, hnext⟩
    rw [lowered] at hword
    rw [if_neg hword]
    exact h.push hkept hpos .d
  · have hword := not_kept_iff.mp hkept
    refine ⟨_, rfl, ?_, hnext⟩
    rw [lowered] at hword
    rw [if_pos hword]
    exact h.skip hkept

theorem foldlM_pushPiece_spec (h : Indexed done lexemes) (hpos : pos.toNat = done.length + 1)
    (hroom : done.length + rest.length < 0xFFFFFFFF) :
    ∃ state, rest.foldlM pushPiece (lexemes, pos) = some state ∧
      Indexed (done ++ rest) state.1 := by
  induction rest generalizing done lexemes pos with
  | nil => exact ⟨(lexemes, pos), rfl, by rwa [List.append_nil]⟩
  | cons piece rest ih =>
      rw [List.length_cons] at hroom
      obtain ⟨lexemes', hpush, h', hpos'⟩ := pushPiece_spec h hpos (by omega) piece
      have hroom' : (done ++ [piece]).length + rest.length < 0xFFFFFFFF := by
        rw [List.length_append, List.length_singleton]
        omega
      obtain ⟨state, hrest, hstate⟩ := ih h' hpos' hroom'
      refine ⟨state, ?_, by rwa [List.append_cons]⟩
      rw [List.foldlM_cons, hpush, Option.bind_eq_bind, Option.bind_some, hrest]

/-- A loop that runs out of positions. -/
theorem foldlM_pushPiece_eq_none (hroom : 0xFFFFFFFF < pos.toNat + rest.length) :
    rest.foldlM pushPiece (lexemes, pos) = none := by
  have hbound := pos.toNat_lt
  induction rest generalizing lexemes pos with
  | nil =>
      rw [List.length_nil] at hroom
      omega
  | cons piece rest ih =>
      rw [List.length_cons] at hroom
      rw [List.foldlM_cons]
      unfold pushPiece
      by_cases hmax : pos = 0xFFFFFFFF
      · rw [if_pos hmax]
        rfl
      · have hne : pos.toNat ≠ 0xFFFFFFFF := fun h => hmax (UInt32.toNat_inj.mp h)
        have hnext : (pos + 1).toNat = pos.toNat + 1 := by
          have hone : (1 : UInt32).toNat = 1 := rfl
          rw [UInt32.toNat_add, hone]
          omega
        rw [if_neg hmax, Option.bind_eq_bind, Option.bind_some]
        have hroom' : 0xFFFFFFFF < (pos + 1).toNat + rest.length := by omega
        exact ih hroom' (pos + 1).toNat_lt

end Loop

theorem Indexed.perm {done : List (List Char)} {lexemes lexemes' : List TsLexeme}
    (h : Indexed done lexemes) (hperm : lexemes'.Perm lexemes) : Indexed done lexemes' := by
  refine ⟨((hperm.map TsLexeme.text).nodup_iff).mpr h.nodup,
    fun l hl => h.positions l (hperm.mem_iff.mp hl), ?_⟩
  intro word pos
  rw [← h.recorded_iff]
  unfold Recorded
  simp only [hperm.mem_iff]

omit [Letters] in
theorem pairwise_text_sortBy {lexemes : List TsLexeme} (h : (lexemes.map TsLexeme.text).Nodup) :
    (sortBy (fun a b => compare a.text b.text) lexemes).Pairwise fun a b => a.text < b.text := by
  have htrans : Std.TransCmp fun a b : TsLexeme => compare a.text b.text :=
    transCmp_on (inferInstanceAs (Std.TransCmp fun a b : String => compare a b)) TsLexeme.text
  have hsorted : (sortBy (fun a b : TsLexeme => compare a.text b.text) lexemes).Pairwise
      fun a b => compare a.text b.text ≠ .gt := pairwise_sortBy lexemes
  have hnodup := (((perm_sortBy (fun a b => compare a.text b.text) lexemes).map
    TsLexeme.text).nodup_iff).mpr h
  rw [List.Nodup, List.pairwise_map] at hnodup
  refine (hsorted.and hnodup).imp ?_
  rintro a b ⟨hle, hne⟩
  cases hcmp : compare a.text b.text with
  | lt => exact compareOfLessAndEq_eq_lt.mp hcmp
  | eq => exact absurd (Std.LawfulEqCmp.compare_eq_iff_eq.mp hcmp) hne
  | gt => exact absurd hcmp hle

/-- What `to_tsvector` makes of a text that it has positions for. -/
theorem toTsvector_spec {text : List Char} (hroom : (pieces text).length < 0xFFFFFFFF) :
    ∃ v, toTsvector text = some v ∧ (v.lexemes.Pairwise fun a b => a.text < b.text) ∧
      Indexed (pieces text) v.lexemes := by
  have hstart : (1 : UInt32).toNat = ([] : List (List Char)).length + 1 := rfl
  obtain ⟨state, hrun, hstate⟩ :=
    foldlM_pushPiece_spec indexed_nil hstart (by simpa using hroom)
  refine ⟨⟨sortBy (fun a b => compare a.text b.text) state.1⟩, ?_,
    pairwise_text_sortBy hstate.nodup, hstate.perm (perm_sortBy _ _)⟩
  rw [toTsvector, hrun, Option.map_some]

theorem toTsvector_eq_none {text : List Char} (hroom : 0xFFFFFFFF ≤ (pieces text).length) :
    toTsvector text = none := by
  have hstart : (1 : UInt32).toNat = 1 := rfl
  rw [toTsvector, foldlM_pushPiece_eq_none (by omega), Option.map_none]

/-- There is one piece more than there are separators. -/
theorem length_pieces (text : List Char) :
    (pieces text).length = text.countP (fun char => !isAlphanumeric char) + 1 := by
  unfold pieces
  induction text with
  | nil => rfl
  | cons char text ih =>
      rw [List.splitOnP_cons_eq_if_modifyHead]
      split
      · rw [List.length_cons, ih, List.countP_cons_of_pos ‹_›]
      · rw [List.length_modifyHead, ih, List.countP_cons_of_neg ‹_›]

/-- The lexemes come in the order of their texts, each with the positions of its
pieces in order, and record the kept pieces and nothing else. -/
theorem toTsvector_invariant {text : List Char}
    (hroom : text.countP (fun char => !isAlphanumeric char) < 0x80000000) :
    ∃ v, toTsvector text = some v ∧ (v.lexemes.Pairwise fun a b => a.text < b.text) ∧
      (∀ l ∈ v.lexemes, l.text ≠ "" ∧ l.text ∉ stopWords ∧ l.positions ≠ [] ∧
        l.positions.Pairwise fun p q => p.word < q.word) ∧
      (∀ l ∈ v.lexemes, ∀ l' ∈ v.lexemes, ∀ p ∈ l.positions, ∀ p' ∈ l'.positions,
        p.word = p'.word → l = l') ∧
      ∀ word pos, (∃ l ∈ v.lexemes, l.text = word ∧ ∃ p ∈ l.positions, p.word = pos) ↔
        ∃ (i : Nat) (piece : List Char), (pieces text)[i]? = some piece ∧ Kept piece ∧
          lowered piece = word ∧ pos.toNat = i + 1 := by
  have hlen := length_pieces text
  have hroom' : (pieces text).length < 0xFFFFFFFF := by omega
  obtain ⟨v, hv, hsorted, hindexed⟩ := toTsvector_spec hroom'
  refine ⟨v, hv, hsorted, ?_, ?_, hindexed.recorded_iff⟩
  · intro l hl
    obtain ⟨hne, hpositions⟩ := hindexed.positions l hl
    obtain ⟨p, hp⟩ := List.exists_mem_of_ne_nil _ hne
    obtain ⟨i, piece, -, hkept, hword, -⟩ :=
      (hindexed.recorded_iff l.text p.word).mp ⟨l, hl, rfl, p, hp, rfl⟩
    rw [← hword]
    exact ⟨mt lowered_eq_empty.mp hkept.1, hkept.2, hne, hpositions⟩
  · intro l hl l' hl' p hp p' hp' hsame
    obtain ⟨i, piece, hget, -, hword, hpos⟩ :=
      (hindexed.recorded_iff l.text p.word).mp ⟨l, hl, rfl, p, hp, rfl⟩
    obtain ⟨i', piece', hget', -, hword', hpos'⟩ :=
      (hindexed.recorded_iff l'.text p'.word).mp ⟨l', hl', rfl, p', hp', rfl⟩
    obtain rfl : i = i' := by
      rw [hsame] at hpos
      omega
    rw [hget, Option.some.injEq] at hget'
    subst hget'
    exact List.inj_on_of_nodup_map hindexed.nodup hl hl' (hword.symm.trans hword')

end Contents

section Ascii

theorem isAlphanum_of_isWhitespace {char : Char} (h : isWhitespace char = true) :
    char.isAlphanum = false := by
  rw [isWhitespace, decide_eq_true_iff] at h
  rw [Bool.eq_false_iff]
  intro halnum
  change ((decide (char.val ≥ 'A'.val ∧ char.val ≤ 'Z'.val) ||
      (decide (char.val ≥ 'a'.val) && decide (char.val ≤ 'z'.val))) ||
      (decide (char.val ≥ '0'.val) && decide (char.val ≤ '9'.val))) = true at halnum
  simp only [Bool.or_eq_true, Bool.and_eq_true, decide_eq_true_eq, ge_iff_le,
    UInt32.le_iff_toNat_le] at halnum
  change ((65 ≤ char.toNat ∧ char.toNat ≤ 90) ∨ 97 ≤ char.toNat ∧ char.toNat ≤ 122) ∨
    48 ≤ char.toNat ∧ char.toNat ≤ 57 at halnum
  omega

/-- ASCII texts only. -/
@[reducible] def asciiLetters : Letters where
  toCasing := asciiCasing
  isAlphanumeric := Char.isAlphanum
  isAlphanumeric_of_isWhitespace := isAlphanum_of_isWhitespace
  toLowercase_eq_empty := by
    intro s
    change String.ofList (s.toList.map Char.toLower) = "" ↔ s = ""
    rw [String.ofList_eq_empty_iff, List.map_eq_nil_iff, String.toList_eq_nil_iff]

attribute [local instance] asciiLetters

/-- "Cat the cat" -/
def threeWords : List Char := ['C', 'a', 't', ' ', 't', 'h', 'e', ' ', 'c', 'a', 't']

theorem pieces_threeWords :
    pieces threeWords = [['C', 'a', 't'], ['t', 'h', 'e'], ['c', 'a', 't']] := by
  decide

/-- The second cat is the third piece. -/
theorem threeWords_recorded :
    ∃ v, toTsvector threeWords = some v ∧
      ∃ l ∈ v.lexemes, l.text = "cat" ∧ ∃ p ∈ l.positions, p.word = 3 := by
  obtain ⟨v, hv, -, -, -, hrecorded⟩ :=
    toTsvector_invariant (show threeWords.countP _ < _ by decide)
  refine ⟨v, hv, (hrecorded "cat" 3).mpr ⟨2, ['c', 'a', 't'], ?_, ?_, ?_, rfl⟩⟩
  · rw [pieces_threeWords]
    rfl
  · unfold Kept; decide
  · decide

end Ascii

end PostgressRs.Types.VectorInvariant
