import Mathlib.Algebra.Group.Int.Defs
import Mathlib.Algebra.Group.Nat.Defs
import Mathlib.Data.List.Basic
import PostgressRs.Lib.TokenParser
import PostgressRs.Sql.Ast
import PostgressRs.Sql.Tokenizer

/-!
What all parts of the parser use to go through the tokens (`src/sql/parser.rs`).
-/

namespace PostgressRs.Sql.TokenStream

open PostgressRs.Lib.TokenParser
open PostgressRs.Sql.Ast
open PostgressRs.Sql.Tokenizer

/-- One case for each text of an error, with what is written into it. -/
inductive ParseError where
  | expected (token got : Token)
  | expectedKeyword (word : String) (got : Token)
  | expectedIdentifier (got : Token)
  | expectedString (got : Token)
  | expectedDataType (got : Token)
  | unexpectedKeyword (k : String)
  | unexpectedToken (got : Token)
  | unexpectedInExpression (got : Token)
  | unexpectedInColumn (got : Token)
  | unknownDatePart (s : String)
  | message (text : String)
deriving DecidableEq

abbrev SqlParser (α : Type) : Type := Parser Token ParseError α

section Tokens

def keyword (word : String) : Token → Bool
  | .keyword k => toUppercase k = word
  | _ => false

def oneOf (words : List String) : Token → Bool
  | .keyword k => toUppercase k ∈ words
  | _ => false

def nameText : Token → Option String
  | .ident s => some s
  | .keyword k => some k
  | _ => none

def identText : Token → Option String
  | .ident s => some s
  | _ => none

def numberText : Token → Option String
  | .number n => some n
  | _ => none

def stringText : Token → Option String
  | .string s => some s
  | _ => none

def failWith {α : Type} (text : String) : SqlParser α := fail (.message text)

def expect (token : Token) : SqlParser Unit :=
  onToken (· = token) (pure ()) (failAt .eof (.expected token))

def expectKeyword (word : String) : SqlParser Unit :=
  onToken (keyword word) (pure ()) (failAt .eof (.expectedKeyword word))

def expectIdent : SqlParser String := onSome nameText pure (failAt .eof .expectedIdentifier)

def expectString : SqlParser String := onSome stringText pure (failAt .eof .expectedString)

variable {α : Type}

def optionally (accept : Token → Bool) (p : SqlParser α) : SqlParser (Option α) :=
  onToken accept (do let a ← p; pure (some a)) (pure none)

/-- Whether the next token is there; it is taken. -/
def flag (accept : Token → Bool) : SqlParser Bool := onToken accept (pure true) (pure false)

def commaSeparated (p : SqlParser α) : SqlParser (List α) := sepBy (· = .comma) p

def parenthesized (p : SqlParser α) : SqlParser α := do
  expect .lParen
  let a ← p
  expect .rParen
  pure a

def objectName : SqlParser ObjectName := do
  let parts ← sepBy (· = .dot) expectIdent
  pure ⟨parts⟩

def columnList : SqlParser (Option (List String)) :=
  optionally (· = .lParen) do
    let columns ← commaSeparated expectIdent
    expect .rParen
    pure columns

def sortDirection : SqlParser SortDirection :=
  onToken (keyword "ASC") (pure .asc)
    (onToken (keyword "DESC") (pure .desc) (pure .default))

def nullsOrder : SqlParser NullsOrder :=
  onToken (keyword "NULLS")
    (onToken (keyword "FIRST") (pure .first) (do expectKeyword "LAST"; pure .last))
    (pure .default)

end Tokens

section Numbers

def digitsValue (digits : List Char) : Option Nat :=
  if digits ≠ [] ∧ digits.all Char.isDigit then
    some (digits.foldl (fun value digit => 10 * value + (digit.toNat - 48)) 0)
  else none

/-- `parse` at the type `u32`. -/
def parseU32 (s : String) : Option Nat :=
  let digits := match s.toList with
    | '+' :: digits => digits
    | digits => digits
  (digitsValue digits).filter (· < 2 ^ 32)

/-- `parse` at the type `i64`. -/
def parseI64 (s : String) : Option Int :=
  match s.toList with
  | '-' :: digits => ((digitsValue digits).filter (· ≤ 2 ^ 63)).map fun value => -(value : Int)
  | '+' :: digits => ((digitsValue digits).filter (· < 2 ^ 63)).map fun value => (value : Int)
  | digits => ((digitsValue digits).filter (· < 2 ^ 63)).map fun value => (value : Int)

end Numbers

section Regularity

variable {α : Type} {n : Nat}

theorem regular_failWith {k : Nat} (text : String) :
    Regular .eof n k (failWith text : SqlParser α) (failWith text) :=
  regular_error fun _ => rfl

theorem regular_expect {token : Token} (h : token ≠ .eof) :
    Regular .eof n 1 (expect token) (expect token) :=
  Regular.onToken (decide_eq_false h.symm) (regular_pure ()) (regular_error fun _ => rfl)

theorem regular_expectKeyword (word : String) :
    Regular .eof n 1 (expectKeyword word) (expectKeyword word) :=
  Regular.onToken rfl (regular_pure ()) (regular_error fun _ => rfl)

theorem regular_expectIdent : Regular .eof n 1 expectIdent expectIdent :=
  Regular.onSome rfl regular_pure (regular_error fun _ => rfl)

theorem regular_expectString : Regular .eof n 1 expectString expectString :=
  Regular.onSome rfl regular_pure (regular_error fun _ => rfl)

theorem regular_optionally {accept : Token → Bool} {p p' : SqlParser α}
    (heof : accept .eof = false) (hp : Regular .eof n 0 p p') :
    Regular .eof n 0 (optionally accept p) (optionally accept p') :=
  Regular.onToken heof (hp.bind fun _ => regular_pure _) (regular_pure none)

theorem regular_flag {accept : Token → Bool} (heof : accept .eof = false) :
    Regular .eof n 0 (flag accept) (flag accept) :=
  Regular.onToken heof (regular_pure true) (regular_pure false)

theorem regular_commaSeparated {p p' : SqlParser α} (hp : Regular .eof n 1 p p') :
    Regular .eof n 1 (commaSeparated p) (commaSeparated p') :=
  regular_sepBy rfl hp

theorem regular_parenthesized {p p' : SqlParser α} (hp : Regular .eof n 0 p p') :
    Regular .eof n 1 (parenthesized p) (parenthesized p') :=
  (regular_expect (by decide)).bind fun _ => hp.bind fun _ =>
    (regular_expect (by decide)).bind fun _ => regular_pure _

theorem regular_objectName : Regular .eof n 1 objectName objectName :=
  (regular_sepBy rfl regular_expectIdent).bind fun _ => regular_pure _

theorem regular_columnList : Regular .eof n 0 columnList columnList :=
  regular_optionally rfl ((regular_commaSeparated regular_expectIdent).bind fun _ =>
    (regular_expect (by decide)).bind fun _ => regular_pure _)

theorem regular_sortDirection : Regular .eof n 0 sortDirection sortDirection :=
  Regular.onToken rfl (regular_pure _) (Regular.onToken rfl (regular_pure _) (regular_pure _))

theorem regular_nullsOrder : Regular .eof n 0 nullsOrder nullsOrder :=
  Regular.onToken rfl
    (Regular.onToken rfl (regular_pure _) ((regular_expectKeyword _).bind fun _ => regular_pure _))
    (regular_pure _)

end Regularity

end PostgressRs.Sql.TokenStream
