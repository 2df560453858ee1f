import PostgressRs.Sql.SelectRoundTrip

/-!
Data types, how they are written, and that they are read back.
-/

namespace PostgressRs.Sql.TypeRoundTrip

open PostgressRs.Lib.ReadBack
open PostgressRs.Lib.TokenParser
open PostgressRs.Sql.Ast
open PostgressRs.Sql.ExprParser
open PostgressRs.Sql.ExprPrinter
open PostgressRs.Sql.ExprRoundTrip
open PostgressRs.Sql.FromClauseRoundTrip
open PostgressRs.Sql.SelectParser
open PostgressRs.Sql.SelectRoundTrip
open PostgressRs.Sql.StatementTermination
open PostgressRs.Sql.Tokenizer
open PostgressRs.Sql.TokenStream

section Trees

/-- A word that is a data type by itself. -/
abbrev TypeWord : Type := { word : String // (typeWord (.keyword word)).isSome = true }

/-- A numeral that fits the type of a length. -/
abbrev Length : Type := { numeral : String // (parseU32 numeral).isSome = true }

inductive BitWords where
  | bit
  | bitVarying
  | varying

/-- A data type without brackets behind it. -/
inductive PlainBase where
  | named (word : TypeWord)
  | double
  | numeric (decimal : Bool) (lengths : Option (Length × Length))
  | varchar (length : Option Length)
  | char (length : Option Length)
  | time (zoned : Bool)
  | timestamp (zoned : Bool)
  | bit (words : BitWords) (length : Option Length)
  | array (element : PlainBase) (brackets : Bool)
  | custom (name : DottedName)

/-- Only one pair of brackets is read. -/
structure PlainType where
  base : PlainBase
  brackets : Bool

def TypeWord.toType (word : TypeWord) : DataType := (typeWord (.keyword word.val)).get word.property

def Length.value (length : Length) : Nat := (parseU32 length.val).get length.property

def lengthOr (default : Nat) : Option Length → Nat
  | none => default
  | some length => length.value

def withBrackets (base : DataType) (brackets : Bool) : DataType :=
  if brackets then .array base else base

def PlainBase.toType : PlainBase → DataType
  | .named word => word.toType
  | .double => .double
  | .numeric _ none => .numeric 10 0
  | .numeric _ (some (precision, scale)) => .numeric precision.value scale.value
  | .varchar length => .varchar (lengthOr 255 length)
  | .char length => .char (lengthOr 1 length)
  | .time zoned => if zoned then .timeTz else .time
  | .timestamp zoned => if zoned then .timestampTz else .timestamp
  | .bit .bit length => .bit (lengthOr 1 length)
  | .bit _ length => .bitVarying (lengthOr 1 length)
  | .array element brackets => .array (withBrackets element.toType brackets)
  | .custom name => .custom (name.first.val :: name.more.map Subtype.val)

def PlainType.toType (plain : PlainType) : DataType :=
  withBrackets plain.base.toType plain.brackets

end Trees

section Printing

def printLength : Option Length → List Token
  | none => []
  | some length => [.lParen, .number length.val, .rParen]

def printLengths : Option (Length × Length) → List Token
  | none => []
  | some (precision, scale) =>
      [.lParen, .number precision.val, .comma, .number scale.val, .rParen]

def printZone (zoned : Bool) : List Token :=
  if zoned then [.keyword "WITH", .keyword "TIME", .keyword "ZONE"] else []

def BitWords.print : BitWords → List Token
  | .bit => [.keyword "BIT"]
  | .bitVarying => [.keyword "BIT", .keyword "VARYING"]
  | .varying => [.keyword "VARYING"]

def printBrackets (brackets : Bool) : List Token := if brackets then [.lBracket, .rBracket] else []

def PlainBase.print : PlainBase → List Token
  | .named word => [.keyword word.val]
  | .double => [.keyword "DOUBLE", .keyword "PRECISION"]
  | .numeric decimal lengths =>
      .keyword (if decimal then "DECIMAL" else "NUMERIC") :: printLengths lengths
  | .varchar length => .keyword "VARCHAR" :: printLength length
  | .char length => .keyword "CHAR" :: printLength length
  | .time zoned => .keyword "TIME" :: printZone zoned
  | .timestamp zoned => .keyword "TIMESTAMP" :: printZone zoned
  | .bit words length => words.print ++ printLength length
  | .array element brackets =>
      .keyword "ARRAY" :: .lBracket :: (element.print ++ (printBrackets brackets ++ [.rBracket]))
  | .custom name => name.print

def PlainType.print (plain : PlainType) : List Token :=
  plain.base.print ++ printBrackets plain.brackets

end Printing

section Words

/-- The words of the data types that are not single words. -/
def baseWords : List String :=
  ["DOUBLE", "PRECISION", "NUMERIC", "DECIMAL", "VARCHAR", "CHAR", "TIME", "TIMESTAMP", "WITH",
    "ZONE", "BIT", "VARYING", "ARRAY"]

theorem toUppercase_baseWord : ∀ word ∈ baseWords, toUppercase word = word := by
  decide +kernel

theorem keyword_baseWord (word : String) (h : word ∈ baseWords) :
    keyword word (.keyword word) = true :=
  decide_eq_true (toUppercase_baseWord word h)

theorem keyword_baseWord_ne {word other : String} (h : word ∈ baseWords) (hne : word ≠ other) :
    keyword other (.keyword word) = false :=
  keyword_ne (keyword_baseWord word h) hne

theorem expectKeyword_baseWord (word : String) (h : word ∈ baseWords) (rest : List Token) :
    expectKeyword word (.keyword word :: rest) = .ok () rest :=
  expectKeyword_ok (keyword_baseWord word h)

theorem typeWord_baseWord {word : String} (h : word ∈ baseWords) :
    typeWord (.keyword word) = none := by
  have hnamed : ∀ word ∈ baseWords, typeNamed word = none := by decide
  rw [typeWord, toUppercase_baseWord word h, hnamed word h]

end Words

section Parts

variable {E : Token → Prop}

/-- What may stand behind a data type that may still get brackets. -/
structure EndsBase (t : Token) : Prop where
  paren : t ≠ .lParen
  dot : t ≠ .dot
  withWord : keyword "WITH" t = false
  varying : keyword "VARYING" t = false

theorem Length.getD_eq (length : Length) (default : Nat) :
    (parseU32 length.val).getD default = length.value :=
  (Option.get_eq_getD _).symm

theorem typeLength_numeral (default : Nat) (length : Length) (rest : List Token) :
    typeLength default (.number length.val :: rest) = .ok length.value rest := by
  rw [← length.getD_eq default]
  rfl

theorem reads_lengthOf (constructor : Nat → DataType) (default : Nat) (length : Option Length) :
    Reads EndsBase (lengthOf constructor default) (printLength length)
      (constructor (lengthOr default length)) := by
  cases length with
  | none => exact reads_onToken_neg (leads_nil fun t ht => decide_eq_false ht.paren) (reads_pure _)
  | some length =>
      exact reads_onToken_pos (decide_eq_true rfl)
        (Reads.cons_bind (typeLength_numeral default length)
          (Reads.cons_bind (expect_self .rParen) (reads_pure _)))

theorem reads_bitLengthOf (constructor : Nat → DataType) (length : Option Length) :
    Reads EndsBase (bitLengthOf constructor) (printLength length)
      (constructor (lengthOr 1 length)) := by
  cases length with
  | none => exact reads_onToken_neg (leads_nil fun t ht => decide_eq_false ht.paren) (reads_pure _)
  | some length =>
      have hnumeral (rest : List Token) :
          onSome numberText (fun n => pure ((parseU32 n).getD 1)) (pure 1)
            (.number length.val :: rest) = (.ok length.value rest : Outcome Token ParseError Nat) := by
        rw [← length.getD_eq 1]
        rfl
      exact reads_onToken_pos (decide_eq_true rfl)
        (Reads.cons_bind hnumeral (Reads.cons_bind (expect_self .rParen) (reads_pure _)))

theorem reads_numericType (decimal : Bool) (lengths : Option (Length × Length)) :
    Reads EndsBase numericType (printLengths lengths) (PlainBase.numeric decimal lengths).toType := by
  cases lengths with
  | none => exact reads_onToken_neg (leads_nil fun t ht => decide_eq_false ht.paren) (reads_pure _)
  | some lengths =>
      obtain ⟨precision, scale⟩ := lengths
      exact reads_onToken_pos (decide_eq_true rfl)
        (Reads.cons_bind (typeLength_numeral 10 precision)
          (Reads.cons_bind (expect_self .comma)
            (Reads.cons_bind (typeLength_numeral 0 scale)
              (Reads.cons_bind (expect_self .rParen) (reads_pure _)))))

theorem reads_withTimeZone (zoned : Bool) (zonedType plainType : DataType) :
    Reads EndsBase (withTimeZone zonedType plainType) (printZone zoned)
      (if zoned then zonedType else plainType) := by
  cases zoned with
  | false => exact reads_onToken_neg (leads_nil fun t ht => ht.withWord) (reads_pure _)
  | true =>
      exact reads_onToken_pos (keyword_baseWord "WITH" (by decide))
        (Reads.cons_bind (expectKeyword_baseWord "TIME" (by decide))
          (Reads.cons_bind (expectKeyword_baseWord "ZONE" (by decide)) (reads_pure _)))

theorem reads_customType (name : DottedName) :
    Reads EndsBase customType name.print (PlainBase.custom name).toType := by
  intro t rest ht
  have hparts := sepBy_separated (by decide) ht.dot name.first name.more rest
  rw [DottedName.print, List.cons_append, customType, bind_ok hparts]
  rfl

theorem reads_brackets {p : SqlParser DataType} {tokens : List Token} {base : DataType}
    (brackets : Bool) (hp : Reads EndsBase p tokens base) :
    Reads (fun t => EndsBase t ∧ t ≠ .lBracket) (do
        let base ← p
        onToken (· = .lBracket) (do expect .rBracket; pure (.array base)) (pure base))
      (tokens ++ printBrackets brackets) (withBrackets base brackets) := by
  cases brackets with
  | false =>
      exact hp.bind (leads_nil fun t ht => ht.1)
        (reads_onToken_neg (leads_nil fun t ht => decide_eq_false ht.2) (reads_pure _))
  | true =>
      have hbracket : EndsBase .lBracket := ⟨by simp, by simp, rfl, rfl⟩
      exact hp.bind (leads_cons hbracket _)
        (reads_onToken_pos (decide_eq_true rfl)
          (Reads.cons_bind (expect_self .rBracket) (reads_pure _)))

end Parts

end PostgressRs.Sql.TypeRoundTrip
