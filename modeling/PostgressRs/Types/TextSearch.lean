import PostgressRs.Btree.GinIndex
import PostgressRs.Lib.Comparisons
import PostgressRs.Lib.TokenTexts
import PostgressRs.Server.Queries

/-!
Text search (`src/types/tsvector.rs` and `src/types/tsquery.rs`).  A text is the
list of its characters.
-/

namespace PostgressRs.Types.TextSearch

open PostgressRs.Btree.GinIndex
open PostgressRs.Lib.Comparisons
open PostgressRs.Lib.TokenTexts
open PostgressRs.Server.Queries

/-- `char::is_alphanumeric`, which no whitespace is, beside a lowercasing that
makes no text empty. -/
class Letters extends Casing where
  isAlphanumeric : Char → Bool
  isAlphanumeric_of_isWhitespace {char : Char} :
    isWhitespace char = true → isAlphanumeric char = false
  toLowercase_eq_empty {s : String} : toLowercase s = "" ↔ s = ""

export Letters (isAlphanumeric isAlphanumeric_of_isWhitespace toLowercase_eq_empty)

section Queries

inductive TsQuery where
  | lexeme (text : String)
  | and (left right : TsQuery)
  | or (left right : TsQuery)
  | not (inner : TsQuery)
  | phrase (terms : List TsQuery) (distance : Int32)

def andOp : List Char := ['&']

def orOp : List Char := ['|']

def phraseOp : List Char := ['<', '-', '>']

/-- An operator as it is searched for. -/
def spaced (op : List Char) : List Char := ' ' :: (op ++ [' '])

theorem length_trim_le (chars : List Char) : (trim chars).length ≤ chars.length := by
  have hdrop := (List.dropWhile_suffix isWhitespace (l := chars)).length_le
  have hreverse :=
    (List.dropWhile_suffix isWhitespace (l := (chars.dropWhile isWhitespace).reverse)).length_le
  rw [List.length_reverse] at hreverse
  rw [trim, trimMatches, List.length_reverse]
  exact hreverse.trans hdrop

/-- Both sides of an operator are shorter than the text. -/
theorem length_lt_of_splitOnce {op text left right : List Char}
    (h : splitOnce (spaced op) (trim text) = some (left, right)) :
    left.length < text.length ∧ right.length < text.length := by
  have hparts := splitOnce_length h
  have hpattern : (spaced op).length = op.length + 2 := by simp [spaced]
  have htrim := length_trim_le text
  omega

/-- `to_tsquery` cuts the trimmed text at the first `" & "`, else at the first
`" | "`, else at the first `" <-> "`, else behind a leading `!`. -/
def toTsquery (text : List Char) : TsQuery :=
  if trim text = [] then .lexeme ""
  else
    match _hand : splitOnce (spaced andOp) (trim text) with
    | some (left, right) => .and (toTsquery left) (toTsquery right)
    | none =>
        match _hor : splitOnce (spaced orOp) (trim text) with
        | some (left, right) => .or (toTsquery left) (toTsquery right)
        | none =>
            match _hphrase : splitOnce (spaced phraseOp) (trim text) with
            | some (left, right) => .phrase [toTsquery left, toTsquery right] 1
            | none =>
                match _hnot : trim text with
                | '!' :: stripped => .not (toTsquery stripped)
                | query => .lexeme (String.ofList query)
termination_by text.length
decreasing_by
  · exact (length_lt_of_splitOnce _hand).1
  · exact (length_lt_of_splitOnce _hand).2
  · exact (length_lt_of_splitOnce _hor).1
  · exact (length_lt_of_splitOnce _hor).2
  · exact (length_lt_of_splitOnce _hphrase).1
  · exact (length_lt_of_splitOnce _hphrase).2
  · have htrim := length_trim_le text
    rw [_hnot, List.length_cons] at htrim
    omega

/-- `split_whitespace`. -/
def splitWhitespace (text : List Char) : List (List Char) :=
  (text.splitOnP isWhitespace).filter fun word => word ≠ []

def plaintoTsquery (text : List Char) : TsQuery :=
  match splitWhitespace text with
  | [] => .lexeme ""
  | first :: words =>
      words.foldl (fun result word => .and result (.lexeme (String.ofList word)))
        (.lexeme (String.ofList first))

def phrasetoTsquery (text : List Char) : TsQuery :=
  match splitWhitespace text with
  | [] => .lexeme ""
  | words => .phrase (words.map fun word => .lexeme (String.ofList word)) 1

end Queries

section Vectors

inductive TsWeight where
  | a
  | b
  | c
  | d
deriving DecidableEq

structure TsPosition where
  word : UInt32
  weight : TsWeight
deriving DecidableEq

structure TsLexeme where
  text : String
  positions : List TsPosition
deriving DecidableEq

structure TsVector where
  lexemes : List TsLexeme
deriving DecidableEq

def stopWords : List String :=
  ["the", "a", "an", "is", "are", "was", "were", "in", "on", "at", "to", "for", "of", "and", "or",
    "but", "not"]

variable [Letters]

/-- `text.split(|c| !c.is_alphanumeric())`. -/
def pieces (text : List Char) : List (List Char) := text.splitOnP fun char => !isAlphanumeric char

omit [Letters] in
/-- The position goes to the first lexeme with this text, or to a new one at the end. -/
def pushPosition (lexemes : List TsLexeme) (word : String) (position : TsPosition) :
    List TsLexeme :=
  match lexemes with
  | [] => [⟨word, [position]⟩]
  | existing :: rest =>
      if existing.text = word then
        { existing with positions := existing.positions ++ [position] } :: rest
      else existing :: pushPosition rest word position

/-- One pass of the loop: the lexemes so far and the position of the word. -/
def pushPiece (state : List TsLexeme × UInt32) (piece : List Char) :
    Option (List TsLexeme × UInt32) :=
  let word := toLowercase (String.ofList piece)
  let lexemes :=
    if word = "" ∨ word ∈ stopWords then state.1 else pushPosition state.1 word ⟨state.2, .d⟩
  if state.2 = 0xFFFFFFFF then none else some (lexemes, state.2 + 1)

/-- The position of a word overflows behind the 4294967294th piece. -/
def toTsvector (text : List Char) : Option TsVector :=
  ((pieces text).foldlM pushPiece ([], 1)).map fun state =>
    ⟨sortBy (fun a b => compare a.text b.text) state.1⟩

mutual

def tsMatch (tsvector : TsVector) : TsQuery → Bool
  | .lexeme lexeme => tsvector.lexemes.any fun l => l.text = toLowercase lexeme
  | .and left right => tsMatch tsvector left && tsMatch tsvector right
  | .or left right => tsMatch tsvector left || tsMatch tsvector right
  | .not inner => !tsMatch tsvector inner
  | .phrase terms _ => tsMatchAll tsvector terms

def tsMatchAll (tsvector : TsVector) : List TsQuery → Bool
  | [] => true
  | term :: terms => tsMatch tsvector term && tsMatchAll tsvector terms

end

end Vectors

end PostgressRs.Types.TextSearch
