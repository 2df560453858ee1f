import PostgressRs.Types.VectorInvariant

/-!
A text against the plain query made from it.  The vector has the lowered pieces
between characters that are not alphanumeric, without the stop words; the query
asks for every word between whitespace.
-/

namespace PostgressRs.Types.PlainQueries

open PostgressRs.Server.Queries
open PostgressRs.Types.TextSearch
open PostgressRs.Types.VectorInvariant

section Splitting

variable {p q : Char → Bool}

theorem exists_splitOnP_eq_cons (p : Char → Bool) (l : List Char) :
    ∃ head tail, l.splitOnP p = head :: tail :=
  List.exists_cons_of_ne_nil (List.splitOnP_ne_nil p l)

theorem splitOnP_cons_of_sep {c : Char} (h : p c = true) (l : List Char) :
    (c :: l).splitOnP p = [] :: l.splitOnP p := by
  rw [List.splitOnP_cons_eq_if_modifyHead, if_pos h]

theorem splitOnP_cons_of_not_sep {c : Char} {l head : List Char} {tail : List (List Char)}
    (h : p c = false) (hl : l.splitOnP p = head :: tail) :
    (c :: l).splitOnP p = (c :: head) :: tail := by
  rw [List.splitOnP_cons_eq_if_modifyHead, h, if_neg Bool.false_ne_true, hl, List.modifyHead_cons]

/-- A part has characters of the text only, and no separator. -/
theorem mem_of_mem_splitOnP {l part : List Char} (h : part ∈ l.splitOnP p) :
    ∀ c ∈ part, c ∈ l ∧ p c = false := by
  induction l generalizing part with
  | nil =>
      rw [List.splitOnP_nil, List.mem_singleton] at h
      simp [h]
  | cons d l ih =>
      intro c hc
      cases hsep : p d with
      | true =>
          rw [splitOnP_cons_of_sep hsep] at h
          rcases List.mem_cons.mp h with rfl | hpart
          · cases hc
          · exact ⟨List.mem_cons_of_mem _ (ih hpart c hc).1, (ih hpart c hc).2⟩
      | false =>
          obtain ⟨head, tail, hl⟩ := exists_splitOnP_eq_cons p l
          rw [splitOnP_cons_of_not_sep hsep hl] at h
          rcases List.mem_cons.mp h with rfl | hpart
          · rcases List.mem_cons.mp hc with rfl | hc
            · exact ⟨List.mem_cons_self, hsep⟩
            · have hhead := ih (hl ▸ List.mem_cons_self) c hc
              exact ⟨List.mem_cons_of_mem _ hhead.1, hhead.2⟩
          · have htail := ih (hl ▸ List.mem_cons_of_mem _ hpart) c hc
            exact ⟨List.mem_cons_of_mem _ htail.1, htail.2⟩

/-- Every character that is no separator is in some part. -/
theorem exists_mem_splitOnP {l : List Char} {c : Char} (hc : c ∈ l) (hsep : p c = false) :
    ∃ part ∈ l.splitOnP p, c ∈ part := by
  induction l with
  | nil => cases hc
  | cons d l ih =>
      cases hd : p d with
      | true =>
          rw [splitOnP_cons_of_sep hd]
          rcases List.mem_cons.mp hc with rfl | hc
          · rw [hsep] at hd
            cases hd
          · obtain ⟨part, hpart, hmem⟩ := ih hc
            exact ⟨part, List.mem_cons_of_mem _ hpart, hmem⟩
      | false =>
          obtain ⟨head, tail, hl⟩ := exists_splitOnP_eq_cons p l
          rw [splitOnP_cons_of_not_sep hd hl]
          rcases List.mem_cons.mp hc with rfl | hc
          · exact ⟨c :: head, List.mem_cons_self, List.mem_cons_self⟩
          · obtain ⟨part, hpart, hmem⟩ := ih hc
            rw [hl] at hpart
            rcases List.mem_cons.mp hpart with rfl | hpart
            · exact ⟨d :: part, List.mem_cons_self, List.mem_cons_of_mem _ hmem⟩
            · exact ⟨part, List.mem_cons_of_mem _ hpart, hmem⟩

/-- A part that the further separators leave whole is one of their parts too. -/
theorem splitOnP_refine (hpq : ∀ c, p c = true → q c = true) {l head head' : List Char}
    {tail tail' : List (List Char)} (hp : l.splitOnP p = head :: tail)
    (hq : l.splitOnP q = head' :: tail') :
    ((∀ c ∈ head, q c = false) → head = head') ∧
      ∀ part ∈ tail, (∀ c ∈ part, q c = false) → part ∈ tail' := by
  induction l generalizing head head' tail tail' with
  | nil =>
      rw [List.splitOnP_nil, List.cons.injEq] at hp hq
      obtain ⟨rfl, rfl⟩ := hp
      obtain ⟨rfl, rfl⟩ := hq
      exact ⟨fun _ => rfl, fun _ hpart => absurd hpart List.not_mem_nil⟩
  | cons c l ih =>
      obtain ⟨h, t, hl⟩ := exists_splitOnP_eq_cons p l
      obtain ⟨h', t', hl'⟩ := exists_splitOnP_eq_cons q l
      obtain ⟨ihhead, ihtail⟩ := ih hl hl'
      cases hpc : p c with
      | true =>
          rw [splitOnP_cons_of_sep hpc, hl, List.cons.injEq] at hp
          rw [splitOnP_cons_of_sep (hpq c hpc), hl', List.cons.injEq] at hq
          obtain ⟨rfl, rfl⟩ := hp
          obtain ⟨rfl, rfl⟩ := hq
          refine ⟨fun _ => rfl, ?_⟩
          intro part hpart hwhole
          rcases List.mem_cons.mp hpart with rfl | hpart
          · rw [ihhead hwhole]
            exact List.mem_cons_self
          · exact List.mem_cons_of_mem _ (ihtail part hpart hwhole)
      | false =>
          rw [splitOnP_cons_of_not_sep hpc hl, List.cons.injEq] at hp
          obtain ⟨rfl, rfl⟩ := hp
          cases hqc : q c with
          | true =>
              rw [splitOnP_cons_of_sep hqc, hl', List.cons.injEq] at hq
              obtain ⟨rfl, rfl⟩ := hq
              constructor
              · intro hwhole
                rw [hwhole c List.mem_cons_self] at hqc
                cases hqc
              · exact fun part hpart hwhole => List.mem_cons_of_mem _ (ihtail part hpart hwhole)
          | false =>
              rw [splitOnP_cons_of_not_sep hqc hl', List.cons.injEq] at hq
              obtain ⟨rfl, rfl⟩ := hq
              refine ⟨?_, ihtail⟩
              intro hwhole
              rw [ihhead fun d hd => hwhole d (List.mem_cons_of_mem _ hd)]

end Splitting

section Plain

variable [Letters]

/-- A word of alphanumeric characters is a piece of the text. -/
theorem mem_pieces_of_mem_splitWhitespace {text word : List Char}
    (h : word ∈ splitWhitespace text) (hword : ∀ c ∈ word, isAlphanumeric c = true) :
    word ∈ pieces text := by
  have hsep : ∀ c, isWhitespace c = true → (!isAlphanumeric c) = true := by
    intro c hc
    rw [isAlphanumeric_of_isWhitespace hc]
    rfl
  have hwhole : ∀ c ∈ word, (!isAlphanumeric c) = false := by
    intro c hc
    rw [hword c hc]
    rfl
  obtain ⟨head, tail, hp⟩ := exists_splitOnP_eq_cons isWhitespace text
  obtain ⟨head', tail', hq⟩ := exists_splitOnP_eq_cons (fun c => !isAlphanumeric c) text
  obtain ⟨hhead, htail⟩ := splitOnP_refine hsep hp hq
  have hmem := (List.mem_filter.mp h).1
  rw [hp] at hmem
  rw [pieces, hq]
  rcases List.mem_cons.mp hmem with rfl | hmem
  · rw [hhead hwhole]
    exact List.mem_cons_self
  · exact List.mem_cons_of_mem _ (htail word hmem hwhole)

/-- A text with a piece that is not empty has a word. -/
theorem splitWhitespace_ne_nil {text piece : List Char} (h : piece ∈ pieces text)
    (hne : piece ≠ []) : splitWhitespace text ≠ [] := by
  obtain ⟨c, hc⟩ := List.exists_mem_of_ne_nil piece hne
  obtain ⟨htext, halnum⟩ := mem_of_mem_splitOnP h c hc
  have hspace : isWhitespace c = false := by
    rw [Bool.eq_false_iff]
    intro hspace
    rw [isAlphanumeric_of_isWhitespace hspace] at halnum
    cases halnum
  obtain ⟨word, hword, hmem⟩ := exists_mem_splitOnP htext hspace
  apply List.ne_nil_of_mem (a := word)
  rw [splitWhitespace, List.mem_filter]
  exact ⟨hword, decide_eq_true (List.ne_nil_of_mem hmem)⟩

/-- A conjunction of words is matched if all of them are. -/
theorem tsMatch_foldl_and (v : TsVector) (words : List (List Char)) (query : TsQuery) :
    tsMatch v (words.foldl (fun result word => .and result (.lexeme (String.ofList word))) query) =
      (tsMatch v query && words.all fun word => tsMatch v (.lexeme (String.ofList word))) := by
  induction words generalizing query with
  | nil => simp
  | cons word words ih => rw [List.foldl_cons, ih, tsMatch, List.all_cons, Bool.and_assoc]

theorem tsMatch_plaintoTsquery (v : TsVector) {text : List Char}
    (h : splitWhitespace text ≠ []) :
    tsMatch v (plaintoTsquery text) =
      (splitWhitespace text).all fun word => tsMatch v (.lexeme (String.ofList word)) := by
  unfold plaintoTsquery
  obtain ⟨first, words, hwords⟩ := List.exists_cons_of_ne_nil h
  rw [hwords]
  exact tsMatch_foldl_and v words _

/-- The vector of a text has the lexeme of a word exactly if a kept piece has
the word's lower case. -/
theorem tsMatch_lexeme_iff {text word : List Char} {v : TsVector}
    (h : Indexed (pieces text) v.lexemes) (hroom : (pieces text).length < 0xFFFFFFFF) :
    tsMatch v (.lexeme (String.ofList word)) = true ↔
      ∃ piece ∈ pieces text, Kept piece ∧ lowered piece = lowered word := by
  rw [tsMatch, List.any_eq_true]
  constructor
  · rintro ⟨l, hl, htext⟩
    obtain ⟨p, hp⟩ := List.exists_mem_of_ne_nil _ (h.positions l hl).1
    obtain ⟨i, piece, hget, hkept, hword, -⟩ :=
      (h.recorded_iff l.text p.word).mp ⟨l, hl, rfl, p, hp, rfl⟩
    exact ⟨piece, List.mem_of_getElem? hget, hkept, hword.trans (of_decide_eq_true htext)⟩
  · rintro ⟨piece, hpiece, hkept, hword⟩
    obtain ⟨i, hget⟩ := List.mem_iff_getElem?.mp hpiece
    have hi := (List.getElem?_eq_some_iff.mp hget).1
    have hpos : (UInt32.ofNat (i + 1)).toNat = i + 1 := UInt32.toNat_ofNat_of_lt' (by
      change i + 1 < 4294967296
      omega)
    obtain ⟨l, hl, htext, -⟩ :=
      (h.recorded_iff (lowered piece) (UInt32.ofNat (i + 1))).mpr ⟨i, piece, hget, hkept, rfl, hpos⟩
    exact ⟨l, hl, decide_eq_true (htext.trans hword)⟩

/-- A text with a word that is worth a lexeme matches its own plain query
exactly if it has not too many separators and each of its words is no stop
word, and is made of alphanumeric characters or lowered like some piece. -/
theorem matches_itself_iff {text : List Char} (hword : ∃ piece ∈ pieces text, Kept piece) :
    (∃ v, toTsvector text = some v ∧ tsMatch v (plaintoTsquery text) = true) ↔
      text.countP (fun char => !isAlphanumeric char) < 0xFFFFFFFE ∧
        ∀ word ∈ splitWhitespace text, lowered word ∉ stopWords ∧
          ((∀ char ∈ word, isAlphanumeric char = true) ∨
            ∃ piece ∈ pieces text, lowered piece = lowered word) := by
  obtain ⟨piece, hpiece, hkept⟩ := hword
  have hnil := splitWhitespace_ne_nil hpiece hkept.1
  have hlen := length_pieces text
  by_cases hroom : (pieces text).length < 0xFFFFFFFF
  · obtain ⟨v, hv, -, hindexed⟩ := toTsvector_spec hroom
    have hall : tsMatch v (plaintoTsquery text) = true ↔ ∀ word ∈ splitWhitespace text,
        ∃ piece ∈ pieces text, Kept piece ∧ lowered piece = lowered word := by
      rw [tsMatch_plaintoTsquery v hnil, List.all_eq_true]
      simp only [tsMatch_lexeme_iff hindexed hroom]
    constructor
    · rintro ⟨v', hv', hmatch⟩
      obtain rfl : v = v' := Option.some.inj (hv.symm.trans hv')
      refine ⟨by omega, ?_⟩
      intro word hword
      obtain ⟨piece, hpiece, hkept, hlowered⟩ := hall.mp hmatch word hword
      exact ⟨hlowered ▸ hkept.2, .inr ⟨piece, hpiece, hlowered⟩⟩
    · rintro ⟨-, hwords⟩
      refine ⟨v, hv, hall.mpr ?_⟩
      intro word hword
      obtain ⟨hstop, hcase⟩ := hwords word hword
      have hne : word ≠ [] := of_decide_eq_true (List.mem_filter.mp hword).2
      rcases hcase with halnum | ⟨piece, hpiece, hlowered⟩
      · exact ⟨word, mem_pieces_of_mem_splitWhitespace hword halnum, ⟨hne, hstop⟩, rfl⟩
      · refine ⟨piece, hpiece, ⟨?_, hlowered ▸ hstop⟩, hlowered⟩
        rwa [Ne, ← lowered_eq_empty, hlowered, lowered_eq_empty]
  · have hnone := toTsvector_eq_none (Nat.le_of_not_lt hroom)
    constructor
    · rintro ⟨v, hv, -⟩
      rw [hnone] at hv
      cases hv
    · rintro ⟨hcount, -⟩
      omega

end Plain

section Ascii

attribute [local instance] asciiLetters

/-- "the cat" -/
def theCat : List Char := ['t', 'h', 'e', ' ', 'c', 'a', 't']

/-- The stop word is asked for but not recorded. -/
theorem theCat_not_matched : (∃ piece ∈ pieces theCat, Kept piece) ∧
    ¬ ∃ v, toTsvector theCat = some v ∧ tsMatch v (plaintoTsquery theCat) = true := by
  refine ⟨⟨['c', 'a', 't'], by decide, by unfold Kept; decide⟩, ?_⟩
  rintro ⟨v, hv, hmatch⟩
  have hroom : (pieces theCat).length < 0xFFFFFFFF := by decide
  obtain ⟨v', hv', -, hindexed⟩ := toTsvector_spec hroom
  obtain rfl : v = v' := Option.some.inj (hv.symm.trans hv')
  have hnil : splitWhitespace theCat ≠ [] := by decide
  rw [tsMatch_plaintoTsquery v hnil, List.all_eq_true] at hmatch
  have hthe := hmatch ['t', 'h', 'e'] (by decide)
  obtain ⟨piece, -, hkept, hlowered⟩ := (tsMatch_lexeme_iff hindexed hroom).mp hthe
  have hstop : lowered piece ∈ stopWords := by
    rw [hlowered]
    decide
  exact hkept.2 hstop

/-- "Black cat" has neither stop words nor punctuation. -/
theorem blackCat_matched :
    ∃ v, toTsvector ['B', 'l', 'a', 'c', 'k', ' ', 'c', 'a', 't'] = some v ∧
      tsMatch v (plaintoTsquery ['B', 'l', 'a', 'c', 'k', ' ', 'c', 'a', 't']) = true := by
  have hkept : ∃ piece ∈ pieces ['B', 'l', 'a', 'c', 'k', ' ', 'c', 'a', 't'], Kept piece :=
    ⟨['c', 'a', 't'], by decide, by unfold Kept; decide⟩
  refine (matches_itself_iff hkept).mpr ⟨by decide, ?_⟩
  have hwords : splitWhitespace ['B', 'l', 'a', 'c', 'k', ' ', 'c', 'a', 't'] =
      [['B', 'l', 'a', 'c', 'k'], ['c', 'a', 't']] := by decide
  rw [hwords, List.forall_mem_cons, List.forall_mem_singleton]
  exact ⟨⟨by decide, .inl (List.all_eq_true.mp (by decide))⟩,
    by decide, .inl (List.all_eq_true.mp (by decide))⟩

end Ascii

end PostgressRs.Types.PlainQueries
