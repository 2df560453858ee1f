import Mathlib.Data.List.DropRight
import PostgressRs.Server.Queries

/-!
How a stream of texts is split into statements (`src/protocol/parser.rs`), byte by byte.
-/

namespace PostgressRs.Server.StatementSplitting

open PostgressRs.Lib.ByteBuffer
open PostgressRs.Lib.Utf8
open PostgressRs.Server.Queries

section Feeding

variable {ε κ : Type} (parsers : Parsers ε κ)

def newline : UInt8 := 10

def semicolon : UInt8 := 59

def endsLine (byte : UInt8) : Bool := byte = newline ∨ byte = semicolon

/-- `feed` on the bytes as they come; a text may be cut anywhere. -/
def feedBytes (buffer data : Bytes) : Option (Query ε κ) × Bytes :=
  let buffer := buffer ++ data
  match buffer.findIdx? endsLine with
  | some pos =>
      let s := trim (fromUtf8Lossy (buffer.take (pos + 1))).toList
      if s.isEmpty then (none, buffer.drop (pos + 1)) else (parseQuery parsers s, [])
  | none => (none, buffer)

/-- The queries of the calls, one after the other. -/
def feedAll : Bytes → List Bytes → List (Query ε κ)
  | _, [] => []
  | buffer, data :: calls =>
      (feedBytes parsers buffer data).1.toList ++
        feedAll (feedBytes parsers buffer data).2 calls

def terminated (statements : List String) : Bytes :=
  statements.flatMap fun s => asBytes s ++ [semicolon]

def Open (bytes : Bytes) : Prop := ∀ byte ∈ bytes, endsLine byte = false

def Blank (s : String) : Prop := ∀ char ∈ s.toList, isWhitespace char = true

/-- In a buffer with the data of a call there is no end of a line, or one statement with
only blanks behind it, or one blank line. -/
def Splits (text : Bytes) : Prop :=
  Open text ∨
    (∃ before blanks, text = before ++ semicolon :: asBytes blanks ∧ Open before ∧ Blank blanks) ∨
    ∃ blanks rest, text = asBytes blanks ++ newline :: rest ∧ Blank blanks ∧
      Open (asBytes blanks) ∧ Open rest

/-- In every call. -/
def SplitsAll : Bytes → List Bytes → Prop
  | _, [] => True
  | buffer, data :: calls =>
      Splits (buffer ++ data) ∧ SplitsAll (feedBytes parsers buffer data).2 calls

end Feeding

section Trimming

theorem trim_eq (chars : List Char) :
    trim chars = (chars.dropWhile isWhitespace).rdropWhile isWhitespace := rfl

theorem isWhitespace_semicolon : isWhitespace ';' = false := by decide

/-- Blanks before a text are not part of it. -/
theorem trim_append {blanks : List Char} (h : ∀ char ∈ blanks, isWhitespace char = true)
    (chars : List Char) : trim (blanks ++ chars) = trim chars := by
  rw [trim_eq, trim_eq, List.dropWhile_append_of_pos h]

theorem dropWhile_append_semicolon (chars : List Char) :
    (chars ++ [';']).dropWhile isWhitespace = chars.dropWhile isWhitespace ++ [';'] := by
  rw [List.dropWhile_append]
  split
  · rename_i hempty
    rw [List.isEmpty_iff.mp hempty]
    rfl
  · rfl

theorem trim_semicolon (chars : List Char) :
    trim (chars ++ [';']) = chars.dropWhile isWhitespace ++ [';'] := by
  rw [trim_eq, dropWhile_append_semicolon, List.rdropWhile_concat_neg]
  rw [isWhitespace_semicolon]
  decide

theorem rdropWhile_semicolon {chars : List Char} (h : ';' ∉ chars) :
    chars.rdropWhile (· = ';') = chars := by
  rw [List.rdropWhile_eq_self_iff]
  intro hne heq
  exact h (of_decide_eq_true heq ▸ List.getLast_mem hne)

theorem notMem_dropWhile {chars : List Char} (h : ';' ∉ chars) :
    ';' ∉ chars.dropWhile isWhitespace :=
  fun hmem => h ((List.dropWhile_suffix _).subset hmem)

theorem notMem_trim {chars : List Char} (h : ';' ∉ chars) : ';' ∉ trim chars := by
  rw [trim_eq]
  exact fun hmem => notMem_dropWhile h ((List.rdropWhile_prefix _ _).subset hmem)

theorem trim_dropWhile (chars : List Char) : trim (chars.dropWhile isWhitespace) = trim chars := by
  rw [trim_eq, List.dropWhile_idempotent]
  rfl

/-- What is cut at the end begins with the same character. -/
theorem dropWhile_rdropWhile {p : Char → Bool} {chars : List Char}
    (h : chars.dropWhile p = chars) :
    (chars.rdropWhile p).dropWhile p = chars.rdropWhile p := by
  cases hcut : chars.rdropWhile p with
  | nil => rfl
  | cons char cut =>
      have hprefix : char :: cut <+: chars := hcut ▸ List.rdropWhile_prefix p chars
      obtain ⟨rest, rfl⟩ := hprefix
      have hchar : ¬p char = true := by
        intro hchar
        have hlen := congrArg List.length h
        rw [List.cons_append, List.dropWhile_cons_of_pos hchar, List.length_cons] at hlen
        have hle := (List.dropWhile_suffix p (l := cut ++ rest)).length_le
        omega
      exact List.dropWhile_cons_of_neg hchar

theorem trim_trim (chars : List Char) : trim (trim chars) = trim chars := by
  have hdrop := dropWhile_rdropWhile (List.dropWhile_idempotent isWhitespace chars)
  rw [trim_eq (trim chars), trim_eq, hdrop, List.rdropWhile_idempotent]

variable {ε κ : Type} (parsers : Parsers ε κ)

theorem parseQuery_congr {chars chars' : List Char} (h : trim chars = trim chars') :
    parseQuery parsers chars = parseQuery parsers chars' := by
  rw [parseQuery, h, parseQuery]

/-- The semicolon that ends a statement is trimmed away. -/
theorem parseQuery_semicolon {chars : List Char} (h : ';' ∉ chars) :
    parseQuery parsers (trim (chars ++ [';'])) = parseQuery parsers chars := by
  have hleft : trim (trimEndMatches (· = ';') (trim (trim (chars ++ [';'])))) = trim chars := by
    rw [trim_trim, trim_semicolon]
    change trim (List.rdropWhile _ _) = _
    rw [List.rdropWhile_concat_pos _ _ _ (by decide), rdropWhile_semicolon (notMem_dropWhile h),
      trim_dropWhile]
  have hright : trim (trimEndMatches (· = ';') (trim chars)) = trim chars := by
    change trim (List.rdropWhile _ _) = _
    rw [rdropWhile_semicolon (notMem_trim h), trim_trim]
  rw [parseQuery, hleft, parseQuery, hright]

end Trimming

section Bytes

def encode (chars : List Char) : Bytes := chars.flatMap String.utf8EncodeChar

theorem asBytes_ofList (chars : List Char) : asBytes (String.ofList chars) = encode chars := by
  rw [asBytes_eq, String.toList_ofList]
  rfl

/-- A byte of an ASCII character is only found in that character. -/
theorem mem_utf8EncodeChar {char : Char} {n : Nat} (hn : n < 128)
    (h : UInt8.ofNat n ∈ String.utf8EncodeChar char) : char.val.toNat = n := by
  have hne (m : Nat) (hlow : 128 ≤ m) (hhigh : m < 256) : UInt8.ofNat n ≠ UInt8.ofNat m := by
    intro heq
    have hnat := congrArg UInt8.toNat heq
    rw [toNat_ofNat_byte (by omega), toNat_ofNat_byte hhigh] at hnat
    omega
  have hvalid := char.valid
  simp only [UInt32.isValidChar, Nat.isValidChar] at hvalid
  simp only [String.utf8EncodeChar] at h
  generalize char.val.toNat = v at h hvalid
  split at h
  · have hnat := congrArg UInt8.toNat (List.mem_singleton.mp h)
    rw [toNat_ofNat_byte (by omega), toNat_ofNat_byte (by omega)] at hnat
    exact hnat.symm
  -- All other bytes are of 128 and more.
  split at h
  · simp only [List.mem_cons, List.not_mem_nil, or_false] at h
    rcases h with h | h
    all_goals exact absurd h (hne _ (by omega) (by omega))
  split at h
  · simp only [List.mem_cons, List.not_mem_nil, or_false] at h
    rcases h with h | h | h
    all_goals exact absurd h (hne _ (by omega) (by omega))
  · simp only [List.mem_cons, List.not_mem_nil, or_false] at h
    rcases h with h | h | h | h
    all_goals exact absurd h (hne _ (by omega) (by omega))

theorem semicolon_notMem {s : String} (h : ';' ∉ s.toList) : semicolon ∉ asBytes s := by
  rw [asBytes_eq, List.mem_flatMap]
  rintro ⟨char, hchar, hmem⟩
  have hcode : char.val.toNat = 59 := mem_utf8EncodeChar (by decide) hmem
  have heq : char = ';' := Char.toNat_inj.mp hcode
  exact h (heq ▸ hchar)

/-- The encodings of different characters do not begin each other. -/
theorem utf8EncodeChar_append_inj {char char' : Char} {u v : Bytes}
    (h : String.utf8EncodeChar char ++ u = String.utf8EncodeChar char' ++ v) :
    char = char' ∧ u = v := by
  have hchars := lossyChars_char u 0 char
  rw [h, lossyChars_char] at hchars
  injection hchars with hchar _
  subst hchar
  exact ⟨rfl, List.append_cancel_left h⟩

/-- Blanks are taken off the text they begin. -/
theorem exists_behind_blanks {blanks chars : List Char} {u v : Bytes}
    (hblank : ∀ char ∈ blanks, isWhitespace char = true)
    (h : encode blanks ++ u = encode chars ++ semicolon :: v) :
    ∃ rest, chars = blanks ++ rest ∧ u = encode rest ++ semicolon :: v := by
  induction blanks generalizing chars with
  | nil => exact ⟨chars, rfl, h⟩
  | cons char blanks ih =>
      obtain ⟨hchar, hrest⟩ := List.forall_mem_cons.mp hblank
      rw [encode, List.flatMap_cons, List.append_assoc] at h
      cases chars with
      | nil =>
          have hsemicolon : String.utf8EncodeChar char ++ (encode blanks ++ u) =
              String.utf8EncodeChar ';' ++ v := h
          rw [(utf8EncodeChar_append_inj hsemicolon).1] at hchar
          cases hchar
      | cons char' chars =>
          rw [encode, List.flatMap_cons, List.append_assoc] at h
          obtain ⟨rfl, htail⟩ := utf8EncodeChar_append_inj h
          obtain ⟨rest, rfl, hu⟩ := ih hrest htail
          exact ⟨rest, rfl, hu⟩

/-- The first of its kind is at the same place in both. -/
theorem append_cons_inj {α : Type} {a : α} {l l' r r' : List α} (hl : a ∉ l) (hl' : a ∉ l')
    (h : l ++ a :: r = l' ++ a :: r') : l = l' ∧ r = r' := by
  induction l generalizing l' with
  | nil =>
      cases l' with
      | nil =>
          cases h
          exact ⟨rfl, rfl⟩
      | cons b l' =>
          cases h
          exact absurd List.mem_cons_self hl'
  | cons b l ih =>
      cases l' with
      | nil =>
          cases h
          exact absurd List.mem_cons_self hl
      | cons b' l' =>
          injection h with hb h
          obtain ⟨rfl, rfl⟩ := ih (fun hmem => hl (List.mem_cons_of_mem b hmem))
            (fun hmem => hl' (List.mem_cons_of_mem b' hmem)) h
          exact ⟨by rw [hb], rfl⟩

end Bytes

section Splitting

variable {ε κ : Type} (parsers : Parsers ε κ)

theorem feedBytes_open {buffer data : Bytes} (h : Open (buffer ++ data)) :
    feedBytes parsers buffer data = (none, buffer ++ data) := by
  rw [feedBytes, List.findIdx?_eq_none_iff.mpr h]

theorem findIdx?_line {line rest : Bytes} (h : Open line) {byte : UInt8}
    (hbyte : endsLine byte = true) :
    (line ++ byte :: rest).findIdx? endsLine = some line.length := by
  rw [List.findIdx?_append, List.findIdx?_eq_none_iff.mpr h, Option.none_or, List.findIdx?_cons,
    if_pos hbyte]
  simp

/-- A text and a character that is a single byte. -/
theorem take_line {s : String} {char : Char} {byte : UInt8} {rest : Bytes}
    (hchar : String.utf8EncodeChar char = [byte]) :
    fromUtf8Lossy ((asBytes s ++ byte :: rest).take ((asBytes s).length + 1)) =
      String.ofList (s.toList ++ [char]) := by
  have htake : (asBytes s ++ byte :: rest).take ((asBytes s).length + 1) =
      (s.toList ++ [char]).flatMap String.utf8EncodeChar := by
    rw [List.take_length_add_append, asBytes_eq, List.flatMap_append, List.flatMap_singleton, hchar]
    rfl
  rw [htake, fromUtf8Lossy_encoded]

/-- The call that brings the end of a statement drops what is behind it. -/
theorem feedBytes_statement {buffer data rest : Bytes} {s : String} (hs : Open (asBytes s))
    (hliteral : ';' ∉ s.toList) (h : buffer ++ data = asBytes s ++ semicolon :: rest) :
    feedBytes parsers buffer data = (parseQuery parsers s.toList, []) := by
  have htrim : trim (s.toList ++ [';']) ≠ [] := by
    rw [trim_semicolon]
    simp
  rw [feedBytes, h, findIdx?_line hs rfl]
  simp only [take_line (show String.utf8EncodeChar ';' = [semicolon] from rfl),
    String.toList_ofList, List.isEmpty_iff, if_neg htrim, parseQuery_semicolon parsers hliteral]

theorem blank_newline {blanks : String} (h : Blank blanks) :
    ∀ char ∈ blanks.toList ++ [Char.ofNat 10], isWhitespace char = true := by
  intro char hchar
  rcases List.mem_append.mp hchar with hmem | hmem
  · exact h char hmem
  · rw [List.mem_singleton.mp hmem]
    decide

theorem trim_blank {chars : List Char} (h : ∀ char ∈ chars, isWhitespace char = true) :
    trim chars = [] := by
  rw [trim_eq, List.dropWhile_eq_nil_iff.mpr h]
  rfl

theorem encode_newline (blanks : String) :
    asBytes (String.ofList (blanks.toList ++ [Char.ofNat 10])) = asBytes blanks ++ [newline] := by
  rw [asBytes_ofList, encode, List.flatMap_append, asBytes_eq]
  rfl

/-- A blank line is taken off the buffer. -/
theorem feedBytes_blank {buffer data rest : Bytes} {blanks : String}
    (hopen : Open (asBytes blanks)) (hblank : Blank blanks)
    (h : buffer ++ data = asBytes blanks ++ newline :: rest) :
    feedBytes parsers buffer data = (none, rest) := by
  have htrim := trim_blank (blank_newline hblank)
  have hdrop : (asBytes blanks ++ newline :: rest).drop ((asBytes blanks).length + 1) = rest := by
    rw [List.drop_length_add_append]
    rfl
  rw [feedBytes, h, findIdx?_line hopen rfl]
  simp only [take_line (show String.utf8EncodeChar (Char.ofNat 10) = [newline] from rfl),
    String.toList_ofList, htrim, List.isEmpty_nil, if_true, hdrop]

/-- The end of a line as a character. -/
def endsLineChar (char : Char) : Bool := char = Char.ofNat 10 ∨ char = ';'

theorem utf8EncodeChar_endsLine {char : Char} (h : endsLineChar char = true) :
    ∃ byte, String.utf8EncodeChar char = [byte] ∧ endsLine byte = true := by
  simp only [endsLineChar, decide_eq_true_eq] at h
  rcases h with rfl | rfl
  · exact ⟨newline, rfl, rfl⟩
  · exact ⟨semicolon, rfl, rfl⟩

theorem open_encode {chars : List Char} (h : ∀ char ∈ chars, endsLineChar char = false) :
    Open (encode chars) := by
  intro byte hbyte
  obtain ⟨char, hchar, hmem⟩ := List.mem_flatMap.mp hbyte
  have hends := h char hchar
  simp only [endsLineChar, decide_eq_false_iff_not, not_or] at hends
  simp only [endsLine, decide_eq_false_iff_not, not_or]
  constructor
  · rintro rfl
    exact hends.1 (Char.toNat_inj.mp (mem_utf8EncodeChar (n := 10) (by decide) hmem))
  · rintro rfl
    exact hends.2 (Char.toNat_inj.mp (mem_utf8EncodeChar (n := 59) (by decide) hmem))

/-- The text up to the first end of a line, which is a single byte. -/
theorem exists_line {chars : List Char} {pos : Nat} (h : chars.findIdx? endsLineChar = some pos) :
    ∃ line char byte rest, chars = line ++ char :: rest ∧ line.length = pos ∧
      (∀ char ∈ line, endsLineChar char = false) ∧ String.utf8EncodeChar char = [byte] ∧
        endsLine byte = true := by
  obtain ⟨hlt, hends, hbefore⟩ := List.findIdx?_eq_some_iff_getElem.mp h
  obtain ⟨byte, hbyte, hends⟩ := utf8EncodeChar_endsLine hends
  refine ⟨chars.take pos, chars[pos], byte, chars.drop (pos + 1), ?_, ?_, ?_, hbyte, hends⟩
  · rw [List.getElem_cons_drop, List.take_append_drop]
  · rw [List.length_take]
    omega
  · intro char hchar
    obtain ⟨i, hi, rfl⟩ := List.mem_iff_getElem.mp hchar
    rw [List.length_take] at hi
    rw [List.getElem_take]
    exact Bool.eq_false_iff.mpr (hbefore i (by omega))

/-- On whole characters it is the `feed` of the texts. -/
theorem feedBytes_encode (buffer data : List Char) :
    feedBytes parsers (encode buffer) (encode data) =
      ((feed parsers buffer data).1, encode (feed parsers buffer data).2) := by
  have happend : encode buffer ++ encode data = encode (buffer ++ data) :=
    List.flatMap_append.symm
  rw [feedBytes, feed, happend]
  generalize buffer ++ data = chars
  cases hpos : chars.findIdx? endsLineChar with
  | none =>
      have hopen := open_encode (List.findIdx?_eq_none_iff.mp hpos)
      have hpos' : chars.findIdx? (fun char => char = Char.ofNat 10 ∨ char = ';') = none := hpos
      rw [List.findIdx?_eq_none_iff.mpr hopen, hpos']
  | some pos =>
      obtain ⟨line, char, byte, rest, rfl, rfl, hline, hbyte, hends⟩ := exists_line hpos
      have hpos' : (line ++ char :: rest).findIdx? (fun char => char = Char.ofNat 10 ∨ char = ';') =
          some line.length := hpos
      have hencode : encode (line ++ char :: rest) =
          asBytes (String.ofList line) ++ byte :: encode rest := by
        rw [asBytes_ofList, encode, List.flatMap_append, List.flatMap_cons, hbyte]
        rfl
      have hopen : Open (asBytes (String.ofList line)) := by
        rw [asBytes_ofList]
        exact open_encode hline
      have htake : (line ++ char :: rest).take (line.length + 1) = line ++ [char] := by
        rw [List.take_length_add_append]
        rfl
      have hdrop : (line ++ char :: rest).drop (line.length + 1) = rest := by
        rw [List.drop_length_add_append]
        rfl
      have hdrop' : (asBytes (String.ofList line) ++ byte :: encode rest).drop
          ((asBytes (String.ofList line)).length + 1) = encode rest := by
        rw [List.drop_length_add_append]
        rfl
      rw [hpos', hencode, findIdx?_line hopen hends]
      simp only [take_line hbyte, String.toList_ofList, htake, hdrop, hdrop']
      split
      · rfl
      · generalize parseQuery parsers (trim (line ++ [char])) = query
        rfl

theorem terminated_cons (s : String) (statements : List String) :
    terminated (s :: statements) = asBytes s ++ semicolon :: terminated statements := by
  rw [terminated, List.flatMap_cons, List.append_assoc]
  rfl

theorem semicolon_notMem_of_open {bytes : Bytes} (h : Open bytes) : semicolon ∉ bytes := by
  intro hmem
  have hends := h semicolon hmem
  revert hends
  decide

def queriesOf (statements : List String) : List (Query ε κ) :=
  statements.filterMap fun s => parseQuery parsers s.toList

/-- Blanks that are dropped were those before the next statement. -/
theorem exists_statements_behind {blanks : String} {bytes : Bytes} {statements : List String}
    (hblank : Blank blanks) (hliteral : ∀ s ∈ statements, ';' ∉ s.toList)
    (h : asBytes blanks ++ bytes = terminated statements) :
    ∃ statements', bytes = terminated statements' ∧ (∀ s ∈ statements', ';' ∉ s.toList) ∧
      queriesOf parsers statements' = queriesOf parsers statements := by
  cases statements with
  | nil => exact ⟨[], (List.append_eq_nil_iff.mp h).2, hliteral, rfl⟩
  | cons s statements =>
      obtain ⟨hs, hrest⟩ := List.forall_mem_cons.mp hliteral
      rw [terminated_cons, asBytes_eq, asBytes_eq] at h
      obtain ⟨chars, hchars, hbytes⟩ := exists_behind_blanks hblank h
      refine ⟨String.ofList chars :: statements, ?_, ?_, ?_⟩
      · rw [terminated_cons, asBytes_ofList]
        exact hbytes
      · rw [List.forall_mem_cons, String.toList_ofList]
        refine ⟨fun hmem => hs ?_, hrest⟩
        rw [hchars]
        exact List.mem_append_right _ hmem
      · rw [queriesOf, queriesOf, List.filterMap_cons, List.filterMap_cons, String.toList_ofList,
          hchars, parseQuery_congr parsers (trim_append hblank chars)]

/-- The first statement, and those behind it. -/
theorem queriesOf_cons (s : String) (statements : List String) :
    queriesOf parsers (s :: statements) =
      (parseQuery parsers s.toList).toList ++ queriesOf parsers statements := by
  rw [queriesOf, List.filterMap_cons]
  cases parseQuery parsers s.toList <;> rfl

theorem feedAll_from {statements : List String} {buffer : Bytes} {calls : List Bytes}
    (hbuffer : Open buffer) (hcalls : buffer ++ calls.flatten = terminated statements)
    (hliteral : ∀ s ∈ statements, ';' ∉ s.toList) (hsplits : SplitsAll parsers buffer calls) :
    feedAll parsers buffer calls = queriesOf parsers statements := by
  induction calls generalizing buffer statements with
  | nil =>
      rw [List.flatten_nil, List.append_nil] at hcalls
      cases statements with
      | nil => rfl
      | cons s statements =>
          rw [terminated_cons] at hcalls
          refine absurd ?_ (semicolon_notMem_of_open hbuffer)
          rw [hcalls]
          exact List.mem_append_right _ List.mem_cons_self
  | cons data calls ih =>
      obtain ⟨hdata, hsplits⟩ := hsplits
      rw [feedAll]
      rw [List.flatten_cons, ← List.append_assoc] at hcalls
      have hnone : Open [] := fun _ hbyte => absurd hbyte List.not_mem_nil
      rcases hdata with hopen | ⟨before, blanks, htext, hbefore, hblank⟩ |
        ⟨blanks, rest, htext, hblank, hopen, hrest⟩
      · rw [feedBytes_open parsers hopen] at hsplits ⊢
        exact ih hopen hcalls hliteral hsplits
      · rw [htext, List.append_assoc, List.cons_append] at hcalls
        cases statements with
        | nil =>
            have hlen := congrArg List.length hcalls
            rw [List.length_append, List.length_cons] at hlen
            cases hlen
        | cons s statements =>
            obtain ⟨hs, hrest⟩ := List.forall_mem_cons.mp hliteral
            rw [terminated_cons] at hcalls
            obtain ⟨rfl, hbehind⟩ := append_cons_inj (semicolon_notMem_of_open hbefore)
              (semicolon_notMem hs) hcalls
            obtain ⟨statements', hcalls', hliteral', hqueries⟩ :=
              exists_statements_behind parsers hblank hrest hbehind
            rw [feedBytes_statement parsers hbefore hs htext] at hsplits ⊢
            rw [ih hnone hcalls' hliteral' hsplits, hqueries, queriesOf_cons]
      · have hblank' : Blank (String.ofList (blanks.toList ++ [Char.ofNat 10])) := by
          rw [Blank, String.toList_ofList]
          exact blank_newline hblank
        have hbehind : asBytes (String.ofList (blanks.toList ++ [Char.ofNat 10])) ++
            (rest ++ calls.flatten) = terminated statements := by
          rw [encode_newline, ← hcalls, htext, List.append_assoc, List.append_assoc]
          rfl
        obtain ⟨statements', hcalls', hliteral', hqueries⟩ :=
          exists_statements_behind parsers hblank' hliteral hbehind
        rw [feedBytes_blank parsers hopen hblank htext] at hsplits ⊢
        exact (ih hrest hcalls' hliteral' hsplits).trans hqueries

/-- A run in which every call splits off what it should returns the queries of the
statements, if no literal has a semicolon. -/
theorem feedAll_terminated {statements : List String} {calls : List Bytes}
    (hcalls : calls.flatten = terminated statements)
    (hliteral : ∀ s ∈ statements, ';' ∉ s.toList) (hsplits : SplitsAll parsers [] calls) :
    feedAll parsers [] calls = statements.filterMap fun s => parseQuery parsers s.toList :=
  feedAll_from parsers (fun _ hbyte => absurd hbyte List.not_mem_nil) hcalls hliteral hsplits

/-- A parser that knows two statements. -/
def endParsers : Parsers Empty Unit where
  parse chars :=
    if chars = "COMMIT".toList then some .commit
    else if chars = "ROLLBACK".toList then some .rollback
    else none
  parseQueryLegacy _ := none

/-- A statement in two calls, and one that begins on a new line. -/
theorem feedAll_terminated_newline :
    feedAll endParsers [] [asBytes "COM", asBytes "MIT;\n", asBytes "ROLLBACK;"] =
      [.statement .commit, .statement .rollback] := by
  have hopen : Open ([] ++ asBytes "COM") := by
    unfold Open
    decide +kernel
  have hcommit : Open (asBytes "COMMIT") := by
    unfold Open
    decide +kernel
  have hrollback : Open (asBytes "ROLLBACK") := by
    unfold Open
    decide +kernel
  have hsecond : ([] ++ asBytes "COM") ++ asBytes "MIT;\n" =
      asBytes "COMMIT" ++ semicolon :: asBytes "\n" := by
    decide +kernel
  have hthird : [] ++ asBytes "ROLLBACK;" = asBytes "ROLLBACK" ++ semicolon :: asBytes "" := by
    decide +kernel
  have hnewline : Blank "\n" := by
    intro char hchar
    have hlist : "\n".toList = ['\n'] := by decide
    rw [hlist] at hchar
    rw [List.mem_singleton.mp hchar]
    decide
  have hsplits : SplitsAll endParsers []
      [asBytes "COM", asBytes "MIT;\n", asBytes "ROLLBACK;"] := by
    refine ⟨.inl hopen, ?_⟩
    rw [feedBytes_open _ hopen]
    refine ⟨.inr (.inl ⟨_, _, hsecond, hcommit, hnewline⟩), ?_⟩
    rw [feedBytes_statement _ hcommit (by decide) hsecond]
    exact ⟨.inr (.inl ⟨_, _, hthird, hrollback, fun _ hchar => absurd hchar (by simp)⟩), trivial⟩
  exact @feedAll_terminated Empty Unit endParsers ["COMMIT", "\nROLLBACK"] _ (by decide +kernel)
    (by decide) hsplits

/-- The second statement of a call is lost. -/
theorem feedAll_loses_rollback :
    [asBytes "COMMIT;ROLLBACK;"].flatten = terminated ["COMMIT", "ROLLBACK"] ∧
      feedAll endParsers [] [asBytes "COMMIT;ROLLBACK;"] ≠
        ["COMMIT", "ROLLBACK"].filterMap fun s => parseQuery endParsers s.toList := by
  refine ⟨by decide +kernel, ?_⟩
  have hcommit : Open (asBytes "COMMIT") := by
    unfold Open
    decide +kernel
  have htext : [] ++ asBytes "COMMIT;ROLLBACK;" =
      asBytes "COMMIT" ++ semicolon :: asBytes "ROLLBACK;" := by
    decide +kernel
  have hfirst : feedAll endParsers [] [asBytes "COMMIT;ROLLBACK;"] = [.statement .commit] := by
    rw [feedAll, feedBytes_statement _ hcommit (by decide) htext]
    rfl
  rw [hfirst]
  intro heq
  have hlen := congrArg List.length heq
  revert hlen
  decide

end Splitting

end PostgressRs.Server.StatementSplitting
