import PostgressRs.Sql.Tokenizer

/-!
Which text the scanner keeps: the spellings of its tokens against the text without
blanks, comments and quote delimiters.
-/

namespace PostgressRs.Sql.LexerCoverage

open PostgressRs.Sql.Tokenizer

section Text

/-- Where in a text a character stands. -/
inductive Region where
  | plain
  | literal
  | quoted
  | comment

/-- The text without blanks, comments and quote delimiters, and of the characters
outside of literals and quoted identifiers only those to keep. -/
def stripped (keep : Char → Bool) : Region → List Char → List Char
  | _, [] => []
  | .plain, char :: rest =>
      if isBlank char then stripped keep .plain rest
      else if char = apostrophe then stripped keep .literal rest
      else if char = quotation then stripped keep .quoted rest
      else if char = '-' ∧ rest.head? = some '-' then stripped keep .comment rest
      else if keep char then char :: stripped keep .plain rest
      else stripped keep .plain rest
  | .literal, char :: rest =>
      if char = apostrophe then stripped keep .plain rest
      else char :: stripped keep .literal rest
  | .quoted, char :: rest =>
      if char = quotation then stripped keep .plain rest
      else char :: stripped keep .quoted rest
  | .comment, char :: rest =>
      if char = newline then stripped keep .plain rest else stripped keep .comment rest

/-- The characters outside of literals, quoted identifiers and comments that are not
blank. -/
def outside : Region → List Char → List Char
  | _, [] => []
  | .plain, char :: rest =>
      if isBlank char then outside .plain rest
      else if char = apostrophe then outside .literal rest
      else if char = quotation then outside .quoted rest
      else if char = '-' ∧ rest.head? = some '-' then outside .comment rest
      else char :: outside .plain rest
  | .literal, char :: rest =>
      if char = apostrophe then outside .plain rest else outside .literal rest
  | .quoted, char :: rest =>
      if char = quotation then outside .plain rest else outside .quoted rest
  | .comment, char :: rest =>
      if char = newline then outside .plain rest else outside .comment rest

/-- The characters that tokens are made of. -/
def isLexed (char : Char) : Bool :=
  (punctuation char).isSome ∨ char = '-' ∨ char = '<' ∨ char = '>' ∨ char = '!' ∨
    char.isAlphanum ∨ char = '_'

/-- The ways to write a token; only `Neq` has two. -/
def spellings : Token → List (List Char)
  | .keyword k => [k.toList]
  | .ident s => [s.toList]
  | .number n => [n.toList]
  | .string s => [s.toList]
  | .lParen => [['(']]
  | .rParen => [[')']]
  | .lBracket => [['[']]
  | .rBracket => [[']']]
  | .comma => [[',']]
  | .dot => [['.']]
  | .semicolon => [[';']]
  | .colon => [[':']]
  | .eq => [['=']]
  | .neq => [['<', '>'], ['!', '=']]
  | .lt => [['<']]
  | .gt => [['>']]
  | .ltEq => [['<', '=']]
  | .gtEq => [['>', '=']]
  | .plus => [['+']]
  | .minus => [['-']]
  | .star => [['*']]
  | .slash => [['/']]
  | .percent => [['%']]
  | .ampersand => [['&']]
  | .pipe => [['|']]
  | .caret => [['^']]
  | .tilde => [['~']]
  | .bang => [['!']]
  | .question => [['?']]
  | .ltLt => [['<', '<']]
  | .gtGt => [['>', '>']]
  | .eof => [[]]

/-- The text is the concatenation of spellings of the tokens. -/
def Spells : List Token → List Char → Prop
  | [], text => text = []
  | token :: tokens, text =>
      ∃ spelling ∈ spellings token, ∃ rest, text = spelling ++ rest ∧ Spells tokens rest

end Text

section Lengths

/-- The spellings of a token have one length. -/
theorem spelling_length {token : Token} {spelling spelling' : List Char}
    (h : spelling ∈ spellings token) (h' : spelling' ∈ spellings token) :
    spelling.length = spelling'.length := by
  cases token with
  | neq =>
      simp only [spellings, List.mem_cons, List.not_mem_nil, or_false] at h h'
      rcases h with rfl | rfl <;> rcases h' with rfl | rfl <;> rfl
  | _ =>
      simp only [spellings, List.mem_singleton] at h h'
      rw [h, h']

theorem Spells.length_eq {tokens : List Token} {text text' : List Char} (h : Spells tokens text)
    (h' : Spells tokens text') : text.length = text'.length := by
  induction tokens generalizing text text' with
  | nil => rw [h, h']
  | cons token tokens ih =>
      obtain ⟨spelling, hspelling, rest, rfl, hrest⟩ := h
      obtain ⟨spelling', hspelling', rest', rfl, hrest'⟩ := h'
      rw [List.length_append, List.length_append, spelling_length hspelling hspelling',
        ih hrest hrest']

variable (keep : Char → Bool)

theorem stripped_sublist (region : Region) (text : List Char) :
    (stripped keep region text).Sublist (stripped (fun _ => true) region text) := by
  induction text generalizing region with
  | nil => cases region <;> exact List.Sublist.refl _
  | cons char rest ih =>
      cases region with
      | plain =>
          simp only [stripped]
          split
          · exact ih .plain
          split
          · exact ih .literal
          split
          · exact ih .quoted
          split
          · exact ih .comment
          split
          · exact (ih .plain).cons_cons char
          · exact (ih .plain).cons char
      | literal =>
          simp only [stripped]
          split
          · exact ih .plain
          · exact (ih .literal).cons_cons char
      | quoted =>
          simp only [stripped]
          split
          · exact ih .plain
          · exact (ih .quoted).cons_cons char
      | comment =>
          simp only [stripped]
          split
          · exact ih .plain
          · exact ih .comment

/-- Nothing is left out exactly when every character outside is one to keep. -/
theorem stripped_eq_iff (region : Region) (text : List Char) :
    stripped keep region text = stripped (fun _ => true) region text ↔
      ∀ char ∈ outside region text, keep char = true := by
  induction text generalizing region with
  | nil => cases region <;> simp [stripped, outside]
  | cons char rest ih =>
      cases region with
      | plain =>
          simp only [stripped, outside]
          split
          · exact ih .plain
          split
          · exact ih .literal
          split
          · exact ih .quoted
          split
          · exact ih .comment
          rw [List.forall_mem_cons]
          split
          · rename_i hkeep
            rw [if_true, List.cons_inj_right, ih .plain]
            simp [hkeep]
          · rename_i hdrop
            rw [if_true]
            constructor
            · intro heq
              have hle := (stripped_sublist keep .plain rest).length_le
              have hlen := congrArg List.length heq
              rw [List.length_cons] at hlen
              omega
            · intro h
              exact absurd h.1 hdrop
      | literal =>
          simp only [stripped, outside]
          split
          · exact ih .plain
          · rw [List.cons_inj_right, ih .literal]
      | quoted =>
          simp only [stripped, outside]
          split
          · exact ih .plain
          · rw [List.cons_inj_right, ih .quoted]
      | comment =>
          simp only [stripped, outside]
          split
          · exact ih .plain
          · exact ih .comment

end Lengths

section Rounds

/-- A character that stands for itself. -/
structure SelfSpelled (char : Char) (rest : List Char) : Prop where
  blank : isBlank char = false
  apostrophe : char ≠ apostrophe
  quotation : char ≠ quotation
  comment : ¬(char = '-' ∧ rest.head? = some '-')
  lexed : isLexed char = true

theorem SelfSpelled.stripped_eq {char : Char} {rest : List Char} (h : SelfSpelled char rest) :
    stripped isLexed .plain (char :: rest) = char :: stripped isLexed .plain rest := by
  simp only [stripped, h.blank, Bool.false_eq_true, if_false, if_neg h.apostrophe,
    if_neg h.quotation, if_neg h.comment, if_pos h.lexed]

/-- A run of characters that stand for themselves. -/
theorem stripped_run {p : Char → Bool} (hp : ∀ char rest, p char = true → SelfSpelled char rest)
    (rest : List Char) :
    stripped isLexed .plain rest = rest.takeWhile p ++
      stripped isLexed .plain (rest.dropWhile p) := by
  induction rest with
  | nil => rfl
  | cons char rest ih =>
      cases hchar : p char with
      | true =>
          rw [(hp char rest hchar).stripped_eq, List.takeWhile_cons_of_pos hchar,
            List.dropWhile_cons_of_pos hchar, List.cons_append, ih]
      | false =>
          rw [List.takeWhile_cons_of_neg (by simp [hchar]),
            List.dropWhile_cons_of_neg (by simp [hchar]), List.nil_append]

theorem stripped_literal (rest : List Char) :
    stripped isLexed .literal rest = rest.takeWhile (· ≠ apostrophe) ++
      stripped isLexed .plain ((rest.dropWhile (· ≠ apostrophe)).drop 1) := by
  induction rest with
  | nil => rfl
  | cons char rest ih =>
      by_cases hchar : char = apostrophe
      · simp [stripped, hchar]
      · simp only [stripped, if_neg hchar]
        rw [List.takeWhile_cons_of_pos (by simpa using hchar),
          List.dropWhile_cons_of_pos (by simpa using hchar), ih, List.cons_append]

theorem stripped_quoted (rest : List Char) :
    stripped isLexed .quoted rest = rest.takeWhile (· ≠ quotation) ++
      stripped isLexed .plain ((rest.dropWhile (· ≠ quotation)).drop 1) := by
  induction rest with
  | nil => rfl
  | cons char rest ih =>
      by_cases hchar : char = quotation
      · simp [stripped, hchar]
      · simp only [stripped, if_neg hchar]
        rw [List.takeWhile_cons_of_pos (by simpa using hchar),
          List.dropWhile_cons_of_pos (by simpa using hchar), ih, List.cons_append]

theorem stripped_comment (rest : List Char) :
    stripped isLexed .comment rest =
      stripped isLexed .plain (rest.dropWhile (· ≠ newline)) := by
  induction rest with
  | nil => rfl
  | cons char rest ih =>
      by_cases hchar : char = newline
      · rw [List.dropWhile_cons_of_neg (by simp [hchar]), hchar]
        simp [stripped, isBlank]
      · simp only [stripped, if_neg hchar]
        rw [List.dropWhile_cons_of_pos (by simpa using hchar), ih]

/-- A round that leaves `rest'` behind it and finds a token with what it takes. -/
structure Covers (char : Char) (rest : List Char) (token : Option Token) (rest' : List Char) :
    Prop where
  shorter : rest'.length ≤ rest.length
  spelled : ∃ spelling, (∀ t ∈ token, spelling ∈ spellings t) ∧ (token = none → spelling = []) ∧
    stripped isLexed .plain (char :: rest) = spelling ++ stripped isLexed .plain rest'

theorem covers_none {char : Char} {rest rest' : List Char} (hshorter : rest'.length ≤ rest.length)
    (h : stripped isLexed .plain (char :: rest) = stripped isLexed .plain rest') :
    Covers char rest none rest' :=
  ⟨hshorter, [], by simp, fun _ => rfl, h⟩

theorem covers_some {char : Char} {rest rest' spelling : List Char} {token : Token}
    (hshorter : rest'.length ≤ rest.length) (hspelling : spelling ∈ spellings token)
    (h : stripped isLexed .plain (char :: rest) = spelling ++ stripped isLexed .plain rest') :
    Covers char rest (some token) rest' := by
  refine ⟨hshorter, spelling, ?_, ?_, h⟩
  · intro t ht
    cases ht
    exact hspelling
  · intro hnone
    cases hnone

/-- A token of the first character alone. -/
theorem covers_one {char : Char} {rest : List Char} {token : Token} (h : SelfSpelled char rest)
    (hspelling : [char] ∈ spellings token) : Covers char rest (some token) rest :=
  covers_some (Nat.le_refl _) hspelling h.stripped_eq

/-- A token of the first two characters. -/
theorem covers_two {char next : Char} {rest : List Char} {token : Token}
    (h : SelfSpelled char (next :: rest)) (h' : SelfSpelled next rest)
    (hspelling : [char, next] ∈ spellings token) :
    Covers char (next :: rest) (some token) rest :=
  covers_some (Nat.le_succ _) hspelling (by rw [h.stripped_eq, h'.stripped_eq]; rfl)

/-- A token of the first character and a run of others. -/
theorem covers_run {char : Char} {rest : List Char} {token : Token} {p : Char → Bool}
    (h : SelfSpelled char rest) (hp : ∀ char rest, p char = true → SelfSpelled char rest)
    (hspelling : char :: rest.takeWhile p ∈ spellings token) :
    Covers char rest (some token) (rest.dropWhile p) :=
  covers_some (List.dropWhile_suffix p).length_le hspelling
    (by rw [h.stripped_eq, stripped_run hp rest]; rfl)

theorem selfSpelled_wordChar {char : Char} (h : isWordChar char = true) (rest : List Char) :
    SelfSpelled char rest := by
  have hword : char.isAlphanum = true ∨ char = '_' := by simpa [isWordChar] using h
  have hne : ∀ other : Char, isWordChar other = false → char ≠ other := by
    rintro other hother rfl
    rw [h] at hother
    cases hother
  refine ⟨?_, hne _ (by decide), hne _ (by decide), fun hcomment => hne '-' (by decide) hcomment.1,
    ?_⟩
  · simp only [isBlank, decide_eq_false_iff_not, not_or]
    exact ⟨hne _ (by decide), hne _ (by decide), hne _ (by decide), hne _ (by decide)⟩
  · simp only [isLexed, decide_eq_true_eq]
    tauto

theorem selfSpelled_numeral {char : Char} (h : isNumeral char = true) (rest : List Char) :
    SelfSpelled char rest := by
  have hnumeral : char.isDigit = true ∨ char = '.' := by simpa [isNumeral] using h
  rcases hnumeral with hdigit | rfl
  · apply selfSpelled_wordChar
    simp [isWordChar, Char.isAlphanum, hdigit]
  · exact ⟨by decide, by decide, by decide, by simp, by decide⟩

theorem selfSpelled_comparison {char : Char}
    (h : char = '<' ∨ char = '>' ∨ char = '=' ∨ char = '!') (rest : List Char) :
    SelfSpelled char rest := by
  rcases h with rfl | rfl | rfl | rfl
  all_goals exact ⟨by decide, by decide, by decide, by simp, by decide⟩

theorem covers_punctuation {char : Char} (h : (punctuation char).isSome = true)
    (rest : List Char) : Covers char rest (punctuation char) rest := by
  unfold punctuation at h ⊢
  split
  all_goals first
    | exact covers_one ⟨by decide, by decide, by decide, by simp, by decide⟩ List.mem_cons_self
    | skip
  simp_all

theorem covers_delimited {char delimiter : Char} {rest : List Char} {token : Token}
    (h : stripped isLexed .plain (char :: rest) = rest.takeWhile (· ≠ delimiter) ++
      stripped isLexed .plain ((rest.dropWhile (· ≠ delimiter)).drop 1))
    (hspelling : rest.takeWhile (· ≠ delimiter) ∈ spellings token) :
    Covers char rest (some token) (delimited delimiter rest).2 := by
  refine covers_some ?_ hspelling h
  rw [delimited, List.length_drop]
  exact Nat.le_trans (Nat.sub_le _ _) (List.dropWhile_suffix _).length_le

theorem spelling_wordToken (s : String) : s.toList ∈ spellings (wordToken s) := by
  unfold wordToken
  split
  · exact List.mem_cons_self
  · exact List.mem_cons_self

/-- A choice between two rounds. -/
theorem covers_ite {char : Char} {rest : List Char} {p : Prop} [Decidable p]
    {a b : Option Token × List Char} (ha : p → Covers char rest a.1 a.2)
    (hb : ¬p → Covers char rest b.1 b.2) :
    Covers char rest (if p then a else b).1 (if p then a else b).2 := by
  split
  · exact ha ‹_›
  · exact hb ‹_›

theorem scan_covers (char : Char) (rest : List Char) :
    Covers char rest (scan char rest).1 (scan char rest).2 := by
  -- The cases are those of the scanner.
  unfold scan
  refine covers_ite ?_ fun hblank => ?_
  · intro hblank
    exact covers_none (Nat.le_refl _) (by simp only [stripped, if_pos hblank])
  rw [Bool.not_eq_true] at hblank
  refine covers_ite ?_ fun hpunctuation => ?_
  · intro hpunctuation
    exact covers_punctuation hpunctuation rest
  refine covers_ite ?_ fun hminus => ?_
  · rintro rfl
    split
    · rename_i rest'
      refine covers_none (List.dropWhile_suffix (fun x => decide (x ≠ newline))).length_le ?_
      rw [← stripped_comment]
      simp [stripped, isBlank, apostrophe, quotation, newline]
    · rename_i hnext
      refine covers_one ⟨by decide, by decide, by decide, ?_, by decide⟩ List.mem_cons_self
      rintro ⟨-, hhead⟩
      obtain ⟨rest', rfl⟩ := List.head?_eq_some_iff.mp hhead
      exact hnext rest' rfl
  refine covers_ite ?_ fun hlt => ?_
  · rintro rfl
    split
    · exact covers_two (selfSpelled_comparison (by decide) _) (selfSpelled_comparison (by decide) _)
        List.mem_cons_self
    · exact covers_two (selfSpelled_comparison (by decide) _) (selfSpelled_comparison (by decide) _)
        List.mem_cons_self
    · exact covers_two (selfSpelled_comparison (by decide) _) (selfSpelled_comparison (by decide) _)
        List.mem_cons_self
    · exact covers_one (selfSpelled_comparison (by decide) _) List.mem_cons_self
  refine covers_ite ?_ fun hgt => ?_
  · rintro rfl
    split
    · exact covers_two (selfSpelled_comparison (by decide) _) (selfSpelled_comparison (by decide) _)
        List.mem_cons_self
    · exact covers_two (selfSpelled_comparison (by decide) _) (selfSpelled_comparison (by decide) _)
        List.mem_cons_self
    · exact covers_one (selfSpelled_comparison (by decide) _) List.mem_cons_self
  refine covers_ite ?_ fun hbang => ?_
  · rintro rfl
    split
    · exact covers_two (selfSpelled_comparison (by decide) _) (selfSpelled_comparison (by decide) _)
        (List.mem_cons_of_mem _ List.mem_cons_self)
    · exact covers_one (selfSpelled_comparison (by decide) _) List.mem_cons_self
  refine covers_ite ?_ fun hapostrophe => ?_
  · rintro rfl
    apply covers_delimited
    · rw [← stripped_literal]
      simp [stripped, hblank]
    · simp [delimited, spellings]
  refine covers_ite ?_ fun hquotation => ?_
  · rintro rfl
    apply covers_delimited
    · rw [← stripped_quoted]
      simp [stripped, hblank, hapostrophe]
    · simp [delimited, spellings]
  refine covers_ite ?_ fun hdigit => ?_
  · intro hdigit
    refine covers_run (selfSpelled_numeral ?_ rest) (fun char rest h => selfSpelled_numeral h rest)
      ?_
    · simp [isNumeral, hdigit]
    · simp [spellings]
  refine covers_ite ?_ fun hletter => ?_
  · intro hletter
    refine covers_run (selfSpelled_wordChar ?_ rest)
      (fun char rest h => selfSpelled_wordChar h rest) ?_
    · simp only [isWordChar, Char.isAlphanum, decide_eq_true_eq, Bool.or_eq_true]
      tauto
    · have hspelling := spelling_wordToken (String.ofList (char :: rest.takeWhile isWordChar))
      rwa [String.toList_ofList] at hspelling
  · apply covers_none (Nat.le_refl _)
    have hlexed : isLexed char = false := by
      simp only [isLexed, Char.isAlphanum, decide_eq_false_iff_not, Bool.or_eq_true]
      tauto
    simp [stripped, hblank, hapostrophe, hquotation, hminus, hlexed]

theorem tokenizeFrom_spells {fuel : Nat} {text : List Char} (h : text.length ≤ fuel) :
    Spells (tokenizeFrom fuel text) (stripped isLexed .plain text) := by
  induction fuel generalizing text with
  | zero =>
      rw [List.length_eq_zero_iff.mp (Nat.le_zero.mp h)]
      exact ⟨[], List.mem_cons_self, [], rfl, rfl⟩
  | succ fuel ih =>
      cases text with
      | nil => exact ⟨[], List.mem_cons_self, [], rfl, rfl⟩
      | cons char rest =>
          obtain ⟨hshorter, spelling, hsome, hnone, hstripped⟩ := scan_covers char rest
          rw [List.length_cons] at h
          have hrest := ih (Nat.le_trans hshorter (Nat.le_of_succ_le_succ h))
          have htokens : tokenizeFrom (fuel + 1) (char :: rest) =
              (scan char rest).1.toList ++ tokenizeFrom fuel (scan char rest).2 := rfl
          rw [hstripped, htokens]
          cases htoken : (scan char rest).1 with
          | none =>
              rw [hnone htoken]
              exact hrest
          | some token => exact ⟨spelling, hsome token htoken, _, rfl, hrest⟩

end Rounds

/-- The tokens spell the whole text when every character outside of literals, quoted
identifiers and comments is one that tokens are made of. -/
theorem tokens_spell_text_iff (sql : String) :
    Spells (tokenize sql) (stripped (fun _ => true) .plain sql.toList) ↔
      ∀ char ∈ outside .plain sql.toList, isLexed char = true := by
  have hspells : Spells (tokenize sql) (stripped isLexed .plain sql.toList) :=
    tokenizeFrom_spells (Nat.le_refl _)
  rw [← stripped_eq_iff]
  constructor
  · intro hall
    exact (stripped_sublist isLexed .plain sql.toList).eq_of_length (hspells.length_eq hall)
  · intro heq
    rw [← heq]
    exact hspells

/-- The text `1 @ 2` has the tokens of `1 2`. -/
theorem tokens_lose_at_sign :
    ¬Spells (tokenize "1 @ 2") (stripped (fun _ => true) .plain "1 @ 2".toList) := by
  intro hspells
  have htokens : tokenize "1 @ 2" = [.number "1", .number "2", .eof] := by decide +kernel
  have hkept : Spells [.number "1", .number "2", .eof] ['1', '2'] :=
    ⟨['1'], by decide, _, rfl, ['2'], by decide, _, rfl, [], by decide, _, rfl, rfl⟩
  rw [htokens] at hspells
  have hlength := hspells.length_eq hkept
  revert hlength
  decide

end PostgressRs.Sql.LexerCoverage
