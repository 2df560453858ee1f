import Mathlib.Data.List.DropRight
import Mathlib.Data.List.TakeWhile
import PostgressRs.Server.Queries

/-!
The data of a `COPY` (`src/protocol/copy.rs`).  A text is the list of its characters.
-/

namespace PostgressRs.Protocol.CopyData

open PostgressRs.Server.Queries

def tab : Char := Char.ofNat 9

def lineFeed : Char := Char.ofNat 10

def carriageReturn : Char := Char.ofNat 13

def quote : Char := Char.ofNat 34

inductive CopyFormat where
  | text
  | csv
  | binary
  deriving DecidableEq

section Parsing

/-- `split_inclusive`. -/
def splitInclusive (sep : Char) : List Char → List (List Char)
  | [] => []
  | c :: rest =>
      if c = sep then [c] :: splitInclusive sep rest
      else
        match splitInclusive sep rest with
        | [] => [[c]]
        | line :: lines => (c :: line) :: lines

/-- A carriage return goes only before a line feed. -/
def stripLineEnd (line : List Char) : List Char :=
  match line.reverse with
  | [] => line
  | c :: before =>
      if c = lineFeed then
        (match before with
          | [] => []
          | c' :: before' => if c' = carriageReturn then before' else before).reverse
      else line

def lines (data : List Char) : List (List Char) := (splitInclusive lineFeed data).map stripLineEnd

/-- The three variables of the loop. -/
structure CsvState where
  result : List (List Char)
  current : List Char
  inQuotes : Bool
  deriving DecidableEq

def CsvState.push (state : CsvState) : CsvState :=
  { state with result := state.result ++ [trim state.current], current := [] }

def csvStep (state : CsvState) (c : Char) : CsvState :=
  if c = quote then { state with inQuotes := !state.inQuotes }
  else if c = ',' ∧ ¬state.inQuotes then state.push
  else if c = lineFeed ∧ ¬state.inQuotes then if state.current = [] then state else state.push
  else { state with current := state.current ++ [c] }

def csvFinish (state : CsvState) : List (List Char) :=
  if state.current = [] then state.result else state.push.result

def csvSplit (data : List Char) : List (List Char) :=
  csvFinish (data.foldl csvStep ⟨[], [], false⟩)

def parseCopyData (data : List Char) : CopyFormat → List (List Char)
  | .text => (lines data).flatMap (List.splitOn tab)
  | .csv => csvSplit data
  | .binary => data.splitOn tab

example : parseCopyData "1,2\n3".toList .csv = [['1'], ['2'], ['3']] := by decide

end Parsing

section Rendering

def escapeQuote (c : Char) : List Char := if c = quote then [quote, quote] else [c]

/-- A field in quotes, its own quotes doubled. -/
def quoted (field : List Char) : List Char := quote :: field.flatMap escapeQuote ++ [quote]

def renderCsv (fields : List (List Char)) : List Char := [','].intercalate (fields.map quoted)

end Rendering

section Scanning

/-- What the scanner keeps of a field. -/
def unquoted (field : List Char) : List Char := field.filter (· ≠ quote)

theorem csvStep_quote (state : CsvState) :
    csvStep state quote = { state with inQuotes := !state.inQuotes } := if_pos rfl

theorem csvStep_inQuotes {c : Char} (h : c ≠ quote) (result : List (List Char))
    (current : List Char) :
    csvStep ⟨result, current, true⟩ c = ⟨result, current ++ [c], true⟩ := by
  rw [csvStep, if_neg h, if_neg fun hcomma => hcomma.2 rfl, if_neg fun hfeed => hfeed.2 rfl]

theorem foldl_escapeQuote (c : Char) (result : List (List Char)) (current : List Char) :
    (escapeQuote c).foldl csvStep ⟨result, current, true⟩ =
      ⟨result, current ++ unquoted [c], true⟩ := by
  by_cases h : c = quote
  · subst h
    rw [escapeQuote, if_pos rfl, List.foldl_cons, List.foldl_cons, List.foldl_nil, csvStep_quote,
      csvStep_quote, show unquoted [quote] = [] from rfl, List.append_nil]
    rfl
  · have hkept : unquoted [c] = [c] := List.filter_eq_self.mpr (by simpa using h)
    rw [escapeQuote, if_neg h, List.foldl_cons, List.foldl_nil, csvStep_inQuotes h, hkept]

/-- Inside its quotes a field is copied, but a doubled quote opens and closes. -/
theorem foldl_escaped (field : List Char) (result : List (List Char)) (current : List Char) :
    (field.flatMap escapeQuote).foldl csvStep ⟨result, current, true⟩ =
      ⟨result, current ++ unquoted field, true⟩ := by
  induction field generalizing current with
  | nil => rw [List.flatMap_nil, List.foldl_nil, unquoted, List.filter_nil, List.append_nil]
  | cons c field ih =>
      have hsplit : unquoted (c :: field) = unquoted [c] ++ unquoted field :=
        List.filter_append [c] field
      rw [List.flatMap_cons, List.foldl_append, foldl_escapeQuote, ih, hsplit, List.append_assoc]

theorem foldl_quoted (field : List Char) (result : List (List Char)) (current : List Char) :
    (quoted field).foldl csvStep ⟨result, current, false⟩ =
      ⟨result, current ++ unquoted field, false⟩ := by
  rw [quoted, List.cons_append, List.foldl_cons, csvStep_quote, List.foldl_append]
  show List.foldl csvStep (List.foldl csvStep ⟨result, current, true⟩ _) [quote] = _
  rw [foldl_escaped, List.foldl_cons, List.foldl_nil, csvStep_quote]
  rfl

theorem csvStep_comma (result : List (List Char)) (current : List Char) :
    csvStep ⟨result, current, false⟩ ',' = ⟨result ++ [trim current], [], false⟩ := by
  rw [csvStep, if_neg (by decide), if_pos ⟨rfl, Bool.false_ne_true⟩]
  rfl

/-- Every field but the last is pushed by the comma behind it. -/
theorem foldl_renderCsv (first : List Char) (rest : List (List Char))
    (result : List (List Char)) :
    (renderCsv (first :: rest)).foldl csvStep ⟨result, [], false⟩ =
      ⟨result ++ (first :: rest).dropLast.map fun field => trim (unquoted field),
        unquoted ((first :: rest).getLast (List.cons_ne_nil _ _)), false⟩ := by
  induction rest generalizing first result with
  | nil =>
      rw [renderCsv, List.map_singleton, List.intercalate_singleton, foldl_quoted]
      simp only [List.dropLast_singleton, List.map_nil, List.append_nil, List.nil_append,
        List.getLast_singleton]
  | cons second rest ih =>
      have hrender :
          renderCsv (first :: second :: rest) =
            quoted first ++ ',' :: renderCsv (second :: rest) := by
        rw [renderCsv, List.map_cons, List.map_cons, List.intercalate_cons_cons, List.append_assoc]
        rfl
      rw [hrender, List.foldl_append, foldl_quoted, List.foldl_cons, csvStep_comma, ih]
      simp only [List.nil_append, List.append_assoc, List.singleton_append,
        List.dropLast_cons_cons, List.map_cons, List.getLast_cons_cons]

/-- A last field without characters is lost. -/
theorem csvSplit_renderCsv {fields : List (List Char)} (h : fields ≠ []) :
    csvSplit (renderCsv fields) =
      (if unquoted (fields.getLast h) = [] then fields.dropLast else fields).map
        fun field => trim (unquoted field) := by
  obtain ⟨first, rest, rfl⟩ := List.exists_cons_of_ne_nil h
  rw [csvSplit, foldl_renderCsv, csvFinish]
  by_cases hlast : unquoted ((first :: rest).getLast h) = []
  · rw [if_pos hlast, if_pos hlast, List.nil_append]
  · rw [if_neg hlast, if_neg hlast, CsvState.push, List.nil_append]
    conv_rhs => rw [← List.dropLast_concat_getLast h]
    rw [List.map_append, List.map_singleton]

end Scanning

section RoundTrip

/-- A field without quotes that begins and ends with no whitespace. -/
structure Plain (field : List Char) : Prop where
  noQuote : quote ∉ field
  head : ∀ h : field ≠ [], isWhitespace (field.head h) = false
  last : ∀ h : field ≠ [], isWhitespace (field.getLast h) = false

theorem unquoted_eq_self_iff {field : List Char} : unquoted field = field ↔ quote ∉ field := by
  rw [unquoted, List.filter_eq_self]
  constructor
  · intro hkept hmem
    exact of_decide_eq_true (hkept quote hmem) rfl
  · intro hquote c hmem
    exact decide_eq_true fun heq => hquote (heq ▸ hmem)

theorem dropWhile_eq_self_iff {field : List Char} :
    field.dropWhile isWhitespace = field ↔
      ∀ h : field ≠ [], isWhitespace (field.head h) = false := by
  rw [List.dropWhile_eq_self_iff]
  constructor
  · intro hfirst h
    rw [List.head_eq_getElem]
    exact Bool.eq_false_iff.mpr (hfirst (List.length_pos_of_ne_nil h))
  · intro hhead hlen
    have hfirst := hhead (List.ne_nil_of_length_pos hlen)
    rw [List.head_eq_getElem] at hfirst
    exact Bool.eq_false_iff.mp hfirst

/-- Only whitespace at the ends is cut. -/
theorem trim_eq_self_iff {field : List Char} :
    trim field = field ↔
      (∀ h : field ≠ [], isWhitespace (field.head h) = false) ∧
        ∀ h : field ≠ [], isWhitespace (field.getLast h) = false := by
  have hsides : trim field = (field.dropWhile isWhitespace).rdropWhile isWhitespace := rfl
  rw [← dropWhile_eq_self_iff]
  constructor
  · intro htrim
    have hdrop : field.dropWhile isWhitespace = field := by
      apply (List.dropWhile_suffix isWhitespace).eq_of_length_le
      conv_lhs => rw [← htrim, hsides]
      exact (List.rdropWhile_prefix _ _).length_le
    rw [hsides, hdrop, List.rdropWhile_eq_self_iff] at htrim
    exact ⟨hdrop, fun h => Bool.eq_false_iff.mpr (htrim h)⟩
  · rintro ⟨hdrop, hlast⟩
    rw [hsides, hdrop, List.rdropWhile_eq_self_iff]
    exact fun h => Bool.eq_false_iff.mp (hlast h)

theorem quote_notMem_trim (field : List Char) : quote ∉ trim (unquoted field) := by
  intro hmem
  have hdrop : quote ∈ (unquoted field).dropWhile isWhitespace :=
    (List.rdropWhile_prefix _ _).subset hmem
  have hkept : quote ∈ unquoted field := (List.dropWhile_suffix _).subset hdrop
  exact of_decide_eq_true (List.mem_filter.mp hkept).2 rfl

/-- The scanner keeps exactly the plain fields as they are. -/
theorem trim_unquoted_eq_self_iff {field : List Char} :
    trim (unquoted field) = field ↔ Plain field := by
  constructor
  · intro hkept
    have hquote : quote ∉ field := hkept ▸ quote_notMem_trim field
    rw [unquoted_eq_self_iff.mpr hquote, trim_eq_self_iff] at hkept
    exact ⟨hquote, hkept.1, hkept.2⟩
  · intro hplain
    rw [unquoted_eq_self_iff.mpr hplain.noQuote, trim_eq_self_iff]
    exact ⟨hplain.head, hplain.last⟩

theorem map_eq_self_iff {α : Type} {f : α → α} {l : List α} :
    l.map f = l ↔ ∀ a ∈ l, f a = a := by
  conv_lhs => rw [← List.map_id l, List.map_map]
  exact List.map_inj_left

/-- A rendered row is read back exactly if no field has quotes or whitespace at an end and
the last one is not empty. -/
theorem csv_round_trip_iff {fields : List (List Char)} (h : fields ≠ []) :
    parseCopyData (renderCsv fields) .csv = fields ↔
      (∀ field ∈ fields, Plain field) ∧ fields.getLast h ≠ [] := by
  have hplain : (fields.map fun field => trim (unquoted field)) = fields ↔
      ∀ field ∈ fields, Plain field := by
    rw [map_eq_self_iff]
    exact forall₂_congr fun field _ => trim_unquoted_eq_self_iff
  show csvSplit (renderCsv fields) = fields ↔ _
  rw [csvSplit_renderCsv h]
  by_cases hlast : unquoted (fields.getLast h) = []
  · rw [if_pos hlast]
    constructor
    · intro heq
      have hlen := congrArg List.length heq
      have hpos := List.length_pos_of_ne_nil h
      rw [List.length_map, List.length_dropLast] at hlen
      omega
    · rintro ⟨hall, hne⟩
      have hnoQuote := (hall _ (List.getLast_mem h)).noQuote
      exact absurd ((unquoted_eq_self_iff.mpr hnoQuote).symm.trans hlast) hne
  · rw [if_neg hlast, hplain]
    refine (and_iff_left ?_).symm
    intro hempty
    exact hlast (by rw [hempty]; rfl)

theorem csv_round_trip_iff_comma :
    [['a', ',', 'b'], ['c']] ≠ [] ∧
      parseCopyData (renderCsv [['a', ',', 'b'], ['c']]) .csv = [['a', ',', 'b'], ['c']] :=
  have hne : [['a', ',', 'b'], ['c']] ≠ [] := List.cons_ne_nil _ _
  ⟨hne, (csv_round_trip_iff hne).mpr ⟨by
    intro field hfield
    rcases List.mem_pair.mp hfield with rfl | rfl
    · exact ⟨by decide, fun _ => rfl, fun _ => rfl⟩
    · exact ⟨by decide, fun _ => rfl, fun _ => rfl⟩, List.cons_ne_nil _ _⟩⟩

/-- An empty last field is dropped, and a space at an end or a quote in a field is lost. -/
theorem csv_round_trip_fails :
    (parseCopyData (renderCsv [['a'], []]) .csv = [['a']]) ∧
      (parseCopyData (renderCsv [[' ', 'a']]) .csv = [['a']]) ∧
      parseCopyData (renderCsv [['a', quote, 'b']]) .csv = [['a', 'b']] := by
  decide

end RoundTrip

end PostgressRs.Protocol.CopyData
