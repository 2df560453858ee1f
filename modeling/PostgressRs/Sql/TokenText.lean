import Mathlib.Data.List.TakeWhile
import PostgressRs.Sql.Tokenizer

/-!
Tokens written as text: which texts are read back, and where a quoted literal ends.
-/

namespace PostgressRs.Sql.TokenText

open PostgressRs.Sql.Tokenizer

section Literals

/-- The text with every apostrophe doubled. -/
def doubled (text : List Char) : List Char :=
  text.flatMap fun char => if char = apostrophe then [char, char] else [char]

def quoteLiteral (s : String) : String :=
  String.ofList (apostrophe :: (doubled s.toList ++ [apostrophe]))

theorem scan_apostrophe (rest : List Char) :
    scan apostrophe rest =
      (some (.string (delimited apostrophe rest).1), (delimited apostrophe rest).2) := rfl

theorem tokenizeFrom_cons (fuel : Nat) (char : Char) (rest : List Char) :
    tokenizeFrom (fuel + 1) (char :: rest) =
      (scan char rest).1.toList ++ tokenizeFrom fuel (scan char rest).2 := rfl

theorem tokenize_quoteLiteral (s : String) :
    tokenize (quoteLiteral s) =
      .string (delimited apostrophe (doubled s.toList ++ [apostrophe])).1 ::
        tokenizeFrom (doubled s.toList ++ [apostrophe]).length
          (delimited apostrophe (doubled s.toList ++ [apostrophe])).2 := by
  rw [tokenize, quoteLiteral, String.toList_ofList, List.length_cons, tokenizeFrom_cons,
    scan_apostrophe]
  rfl

theorem doubled_eq_self {text : List Char} (h : apostrophe ∉ text) : doubled text = text := by
  induction text with
  | nil => rfl
  | cons char text ih =>
      have hchar : char ≠ apostrophe := fun heq => h (heq ▸ List.mem_cons_self)
      have htext : apostrophe ∉ text := fun hmem => h (List.mem_cons_of_mem char hmem)
      rw [doubled, List.flatMap_cons, if_neg hchar, List.singleton_append]
      exact congrArg (char :: ·) (ih htext)

theorem delimited_append {delimiter : Char} {text : List Char} (h : delimiter ∉ text)
    (rest : List Char) :
    delimited delimiter (text ++ delimiter :: rest) = (String.ofList text, rest) := by
  have hall : ∀ char ∈ text, decide (char ≠ delimiter) = true := by
    intro char hchar
    exact decide_eq_true fun heq => h (heq ▸ hchar)
  rw [delimited, List.takeWhile_append_of_pos hall, List.dropWhile_append_of_pos hall]
  simp

/-- A text ends where its first apostrophe is. -/
theorem apostrophe_notMem_delimited (rest : List Char) :
    apostrophe ∉ (delimited apostrophe rest).1.toList := by
  rw [delimited, String.toList_ofList]
  intro hmem
  have hne := List.mem_takeWhile_imp hmem
  simp at hne

/-- A quoted literal is read back exactly if there was nothing to double in it. -/
theorem tokenize_quoteLiteral_iff (s : String) :
    tokenize (quoteLiteral s) = [.string s, .eof] ↔ apostrophe ∉ s.toList := by
  rw [tokenize_quoteLiteral]
  constructor
  · intro h
    injection h with hstring
    injection hstring with hs
    rw [← hs]
    exact apostrophe_notMem_delimited _
  · intro h
    rw [doubled_eq_self h, delimited_append h, String.ofList_toList, List.length_append,
      List.length_singleton]
    rfl

/-- The literal of an apostrophe is read as two empty ones. -/
theorem tokenize_doubled_apostrophe :
    tokenize (quoteLiteral (String.ofList [apostrophe])) = [.string "", .string "", .eof] ∧
      tokenize (quoteLiteral (String.ofList [apostrophe])) ≠
        [.string (String.ofList [apostrophe]), .eof] := by
  have htokens : tokenize (quoteLiteral (String.ofList [apostrophe])) =
      [.string "", .string "", .eof] := by decide +kernel
  refine ⟨htokens, ?_⟩
  rw [htokens]
  decide +kernel

end Literals

section Texts

/-- The tokens of two characters. -/
def pairToken : Char → Char → Option Token
  | '<', '>' => some .neq
  | '<', '=' => some .ltEq
  | '<', '<' => some .ltLt
  | '>', '=' => some .gtEq
  | '>', '>' => some .gtGt
  | '!', '=' => some .neq
  | _, _ => none

/-- The tokens of one character that others can begin with. -/
def singleToken : Char → Option Token
  | '-' => some .minus
  | '<' => some .lt
  | '>' => some .gt
  | '!' => some .bang
  | _ => none

/-- Whether a character behind the first would be read with it. -/
def joined (first second : Char) : Bool :=
  (first = '-' ∧ second = '-') ∨ (pairToken first second).isSome

/-- How a token is written, and which characters would be read with it. -/
inductive TextOf : Token → List Char → (Char → Bool) → Prop where
  | word {char : Char} {rest : List Char} (hchar : char.isAlpha ∨ char = '_')
      (hrest : ∀ c ∈ rest, isWordChar c = true) :
      TextOf (wordToken (String.ofList (char :: rest))) (char :: rest) isWordChar
  | quoted {text : List Char} (h : quotation ∉ text) :
      TextOf (.ident (String.ofList text)) (quotation :: (text ++ [quotation])) fun _ => false
  | string {text : List Char} (h : apostrophe ∉ text) :
      TextOf (.string (String.ofList text)) (apostrophe :: (text ++ [apostrophe])) fun _ => false
  | number {char : Char} {rest : List Char} (hchar : char.isDigit)
      (hrest : ∀ c ∈ rest, isNumeral c = true) :
      TextOf (.number (String.ofList (char :: rest))) (char :: rest) isNumeral
  | punctuation {char : Char} {token : Token} (h : punctuation char = some token) :
      TextOf token [char] fun _ => false
  | single {char : Char} {token : Token} (h : singleToken char = some token) :
      TextOf token [char] (joined char)
  | pair {first second : Char} {token : Token} (h : pairToken first second = some token) :
      TextOf token [first, second] fun _ => false

/-- The tokens with any blanks before and behind each, none where the text behind a token
would not be read with it. -/
inductive Writes : List Token → List Char → Prop where
  | done : Writes [] []
  | blank {tokens : List Token} {char : Char} {text : List Char} (hchar : isBlank char = true)
      (htext : Writes tokens text) : Writes tokens (char :: text)
  | token {token : Token} {tokens : List Token} {text rest : List Char} {glue : Char → Bool}
      (htoken : TextOf token text glue) (hglue : ∀ char ∈ rest.head?, glue char = false)
      (hrest : Writes tokens rest) : Writes (token :: tokens) (text ++ rest)

theorem takeWhile_append_stop {p : Char → Bool} {text rest : List Char}
    (h : ∀ char ∈ text, p char = true) (hstop : ∀ char ∈ rest.head?, p char = false) :
    (text ++ rest).takeWhile p = text ∧ (text ++ rest).dropWhile p = rest := by
  rw [List.takeWhile_append_of_pos h, List.dropWhile_append_of_pos h]
  cases rest with
  | nil => simp
  | cons char rest =>
      have hchar : ¬p char = true := by
        rw [hstop char rfl]
        decide
      rw [List.takeWhile_cons_of_neg hchar, List.dropWhile_cons_of_neg hchar, List.append_nil]
      exact ⟨rfl, rfl⟩

/-- A character that the scanner asks about only after the symbols. -/
structure Alphanumeric (char : Char) : Prop where
  blank : isBlank char = false
  punctuation : punctuation char = none
  symbol : ∀ other ∈ ['-', '<', '>', '!', apostrophe, quotation], char ≠ other

theorem alphanumeric_wordChar {char : Char} (h : isWordChar char = true) : Alphanumeric char := by
  have hne : ∀ other : Char, isWordChar other = false → char ≠ other := by
    rintro other hother rfl
    rw [h] at hother
    cases hother
  have hsymbol : ∀ other ∈ ['-', '<', '>', '!', apostrophe, quotation],
      isWordChar other = false := by
    simp only [List.forall_mem_cons, List.not_mem_nil, false_implies, implies_true, and_true]
    decide
  refine ⟨?_, ?_, fun other hother => hne other (hsymbol other hother)⟩
  · simp only [isBlank, decide_eq_false_iff_not, not_or]
    exact ⟨hne _ (by decide), hne _ (by decide), hne _ (by decide), hne _ (by decide)⟩
  · unfold Tokenizer.punctuation
    split
    all_goals first
      | exact absurd h (by decide)
      | rfl

/-- Behind the symbols come the numbers and the words. -/
theorem Alphanumeric.scan_eq {char : Char} (h : Alphanumeric char) (rest : List Char) :
    scan char rest =
      if char.isDigit then
        (some (.number (String.ofList (char :: rest.takeWhile isNumeral))),
          rest.dropWhile isNumeral)
      else if char.isAlpha ∨ char = '_' then
        (some (wordToken (String.ofList (char :: rest.takeWhile isWordChar))),
          rest.dropWhile isWordChar)
      else (none, rest) := by
  have hblank : ¬isBlank char = true := by
    rw [h.blank]
    decide
  have hpunctuation : ¬(Tokenizer.punctuation char).isSome = true := by
    rw [h.punctuation]
    decide
  unfold scan
  rw [if_neg hblank, if_neg hpunctuation, if_neg (h.symbol _ (by decide)),
    if_neg (h.symbol _ (by decide)), if_neg (h.symbol _ (by decide)),
    if_neg (h.symbol _ (by decide)), if_neg (h.symbol _ (by decide)),
    if_neg (h.symbol _ (by decide))]

theorem isDigit_eq_false {char : Char} (h : char.isAlpha ∨ char = '_') : char.isDigit = false := by
  rcases h with halpha | rfl
  · have hletter : (decide (char.val ≥ 'A'.val ∧ char.val ≤ 'Z'.val) ||
        (decide (char.val ≥ 'a'.val) && decide (char.val ≤ 'z'.val))) = true := halpha
    change (decide (char.val ≥ '0'.val) && decide (char.val ≤ '9'.val)) = false
    grind
  · decide

theorem scan_word {char : Char} {rest tail : List Char} (hchar : char.isAlpha ∨ char = '_')
    (hrest : ∀ c ∈ rest, isWordChar c = true) (hglue : ∀ c ∈ tail.head?, isWordChar c = false) :
    scan char (rest ++ tail) = (some (wordToken (String.ofList (char :: rest))), tail) := by
  have hword : isWordChar char = true := by
    simp only [isWordChar, Char.isAlphanum, decide_eq_true_eq, Bool.or_eq_true]
    tauto
  obtain ⟨htake, hdrop⟩ := takeWhile_append_stop hrest hglue
  rw [(alphanumeric_wordChar hword).scan_eq, isDigit_eq_false hchar, htake, hdrop, if_pos hchar]
  rfl

theorem scan_number {char : Char} {rest tail : List Char} (hchar : char.isDigit)
    (hrest : ∀ c ∈ rest, isNumeral c = true) (hglue : ∀ c ∈ tail.head?, isNumeral c = false) :
    scan char (rest ++ tail) = (some (.number (String.ofList (char :: rest))), tail) := by
  have hword : isWordChar char = true := by simp [isWordChar, Char.isAlphanum, hchar]
  obtain ⟨htake, hdrop⟩ := takeWhile_append_stop hrest hglue
  rw [(alphanumeric_wordChar hword).scan_eq, if_pos hchar, htake, hdrop]

theorem isBlank_eq_false_of_punctuation {char : Char} {token : Token}
    (h : punctuation char = some token) : isBlank char = false := by
  by_contra hblank
  rw [Bool.not_eq_false] at hblank
  simp only [isBlank, decide_eq_true_eq] at hblank
  rcases hblank with rfl | rfl | rfl | rfl <;> cases h

theorem scan_punctuation {char : Char} {token : Token} (h : punctuation char = some token)
    (rest : List Char) : scan char rest = (some token, rest) := by
  unfold scan
  rw [isBlank_eq_false_of_punctuation h, h]
  rfl

theorem scan_pair {first second : Char} {token : Token} (h : pairToken first second = some token)
    (rest : List Char) : scan first (second :: rest) = (some token, rest) := by
  unfold pairToken at h
  split at h
  all_goals cases h
  all_goals rfl

theorem scan_single {char : Char} {token : Token} (h : singleToken char = some token)
    {rest : List Char} (hglue : ∀ c ∈ rest.head?, joined char c = false) :
    scan char rest = (some token, rest) := by
  unfold singleToken at h
  cases rest with
  | nil =>
      split at h
      all_goals cases h
      all_goals rfl
  | cons next rest =>
      have hnext := hglue next rfl
      split at h
      all_goals cases h
      all_goals unfold scan
      · rw [if_neg (by decide), if_neg (by decide), if_pos rfl]
        split
        · rename_i heq
          cases heq
          exact absurd hnext (by decide)
        · rfl
      · rw [if_neg (by decide), if_neg (by decide), if_neg (by decide), if_pos rfl]
        split
        all_goals first
          | rfl
          | rename_i heq; cases heq; exact absurd hnext (by decide)
      · rw [if_neg (by decide), if_neg (by decide), if_neg (by decide), if_neg (by decide),
          if_pos rfl]
        split
        all_goals first
          | rfl
          | rename_i heq; cases heq; exact absurd hnext (by decide)
      · rw [if_neg (by decide), if_neg (by decide), if_neg (by decide), if_neg (by decide),
          if_neg (by decide), if_pos rfl]
        split
        · rename_i heq
          cases heq
          exact absurd hnext (by decide)
        · rfl

theorem scan_delimited {text : List Char} (rest : List Char) :
    (quotation ∉ text → scan quotation (text ++ quotation :: rest) =
      (some (.ident (String.ofList text)), rest)) ∧
    (apostrophe ∉ text → scan apostrophe (text ++ apostrophe :: rest) =
      (some (.string (String.ofList text)), rest)) := by
  constructor
  · intro h
    have hscan (rest : List Char) : scan quotation rest =
        (some (.ident (delimited quotation rest).1), (delimited quotation rest).2) := rfl
    rw [hscan, delimited_append h]
  · intro h
    rw [scan_apostrophe, delimited_append h]

/-- A token's text is one round of the scanner. -/
theorem TextOf.scan_eq {token : Token} {text : List Char} {glue : Char → Bool}
    (h : TextOf token text glue) {rest : List Char}
    (hglue : ∀ char ∈ rest.head?, glue char = false) :
    ∃ char tail, text = char :: tail ∧ scan char (tail ++ rest) = (some token, rest) := by
  cases h with
  | word hchar hrest => exact ⟨_, _, rfl, scan_word hchar hrest hglue⟩
  | @quoted text h =>
      refine ⟨quotation, text ++ [quotation], rfl, ?_⟩
      rw [List.append_assoc]
      exact (scan_delimited rest).1 h
  | @string text h =>
      refine ⟨apostrophe, text ++ [apostrophe], rfl, ?_⟩
      rw [List.append_assoc]
      exact (scan_delimited rest).2 h
  | number hchar hrest => exact ⟨_, _, rfl, scan_number hchar hrest hglue⟩
  | punctuation h => exact ⟨_, _, rfl, scan_punctuation h rest⟩
  | single h => exact ⟨_, _, rfl, scan_single h hglue⟩
  | pair h => exact ⟨_, _, rfl, scan_pair h rest⟩

theorem tokenizeFrom_of_writes {tokens : List Token} {text : List Char} (h : Writes tokens text) :
    ∀ fuel, text.length ≤ fuel → tokenizeFrom fuel text = tokens ++ [.eof] := by
  induction h with
  | done =>
      intro fuel _
      cases fuel <;> rfl
  | @blank tokens char text hchar htext ih =>
      intro fuel hfuel
      obtain ⟨fuel, rfl⟩ : ∃ n, fuel = n + 1 := ⟨fuel - 1, by simp at hfuel; omega⟩
      have hscan : scan char text = (none, text) := by
        unfold scan
        rw [if_pos hchar]
      rw [tokenizeFrom_cons, hscan]
      exact ih fuel (Nat.le_of_succ_le_succ hfuel)
  | @token token tokens text rest glue htoken hglue hrest ih =>
      intro fuel hfuel
      obtain ⟨char, tail, rfl, hscan⟩ := htoken.scan_eq hglue
      rw [List.cons_append, List.length_cons, List.length_append] at hfuel
      obtain ⟨fuel, rfl⟩ : ∃ n, fuel = n + 1 := ⟨fuel - 1, by omega⟩
      rw [List.cons_append, tokenizeFrom_cons, hscan, ih fuel (by omega)]
      rfl

/-- Tokens are read back from every text they are written as. -/
theorem tokenize_of_writes {tokens : List Token} {sql : String} (h : Writes tokens sql.toList) :
    tokenize sql = tokens ++ [.eof] :=
  tokenizeFrom_of_writes h _ (Nat.le_refl _)

def isWord : List Char → Bool
  | [] => false
  | char :: rest => (char.isAlpha || char = '_') && rest.all isWordChar

theorem textOf_word {word : String} (h : isWord word.toList = true) :
    TextOf (wordToken word) word.toList isWordChar := by
  cases htext : word.toList with
  | nil =>
      rw [htext] at h
      cases h
  | cons char rest =>
      rw [htext] at h
      simp only [isWord, Bool.and_eq_true, Bool.or_eq_true, decide_eq_true_eq,
        List.all_eq_true] at h
      have hword := TextOf.word h.1 h.2
      rwa [← htext, String.ofList_toList, htext] at hword

/-- A word and a blank behind it. -/
theorem Writes.word {tokens : List Token} {text : List Char} (h : Writes tokens text)
    (word : String) (hword : isWord word.toList = true) :
    Writes (wordToken word :: tokens) (word.toList ++ ' ' :: text) := by
  refine .token (textOf_word hword) ?_ (.blank (by decide) h)
  intro char hchar
  cases hchar
  decide

end Texts

end PostgressRs.Sql.TokenText
