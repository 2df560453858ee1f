import Mathlib.Data.List.Basic
import PostgressRs.Lib.TokenParser
import PostgressRs.Sql.Ast
import PostgressRs.Sql.Tokenizer
import PostgressRs.Sql.TokenStream

/-!
The parsers of data types and expressions (`src/sql/parser/data_type.rs`,
`src/sql/parser/expr.rs`).
-/

namespace PostgressRs.Sql.ExprParser

open PostgressRs.Lib.TokenParser
open PostgressRs.Sql.Ast
open PostgressRs.Sql.Tokenizer
open PostgressRs.Sql.TokenStream

/-- The functions that are called again from inside of what they parse. -/
structure Calls where
  expr : SqlParser Expr
  bitwiseOr : SqlParser Expr
  select : SqlParser SelectStatement
  dataType : SqlParser DataType

section DataTypes

def typeNamed : String → Option DataType
  | "INT" => some .int
  | "INTEGER" => some .int
  | "BIGINT" => some .bigInt
  | "SMALLINT" => some .smallInt
  | "FLOAT" => some .float
  | "REAL" => some .float
  | "TEXT" => some .text
  | "BOOLEAN" => some .boolean
  | "BOOL" => some .boolean
  | "DATE" => some .date
  | "TIMETZ" => some .timeTz
  | "TIMESTAMPTZ" => some .timestampTz
  | "INTERVAL" => some .interval
  | "JSON" => some .json
  | "JSONB" => some .jsonB
  | "UUID" => some .uuid
  | "SERIAL" => some .serial
  | "BIGSERIAL" => some .bigSerial
  | "SMALLSERIAL" => some .smallSerial
  | "MONEY" => some .money
  | "INET" => some .inet
  | "CIDR" => some .cidr
  | "MACADDR" => some .macAddr
  | "MACADDR8" => some .macAddr
  | "TSVECTOR" => some .tsVector
  | "TSQUERY" => some .tsQuery
  | _ => none

/-- The data types of a single word. -/
def typeWord : Token → Option DataType
  | .keyword k => typeNamed (toUppercase k)
  | _ => none

def typeLength (default : Nat) : SqlParser Nat :=
  onSome numberText (fun n => pure ((parseU32 n).getD default)) do
    let s ← expectIdent
    pure ((parseU32 s).getD default)

def lengthOf (constructor : Nat → DataType) (default : Nat) : SqlParser DataType :=
  onToken (· = .lParen)
    (do
      let length ← typeLength default
      expect .rParen
      pure (constructor length))
    (pure (constructor default))

/-- The length of a bit type may be left out between its parentheses. -/
def bitLengthOf (constructor : Nat → DataType) : SqlParser DataType :=
  onToken (· = .lParen)
    (do
      let length ← onSome numberText (fun n => pure ((parseU32 n).getD 1)) (pure 1)
      expect .rParen
      pure (constructor length))
    (pure (constructor 1))

def numericType : SqlParser DataType :=
  onToken (· = .lParen)
    (do
      let precision ← typeLength 10
      expect .comma
      let scale ← typeLength 0
      expect .rParen
      pure (.numeric precision scale))
    (pure (.numeric 10 0))

def withTimeZone (zoned plain : DataType) : SqlParser DataType :=
  onToken (keyword "WITH")
    (do
      expectKeyword "TIME"
      expectKeyword "ZONE"
      pure zoned)
    (pure plain)

def customType : SqlParser DataType := do
  let parts ← sepBy (· = .dot) expectIdent
  pure (.custom parts)

variable (r : Calls)

def parseDataTypeBase : SqlParser DataType :=
  onSome typeWord pure <|
  onToken (keyword "DOUBLE") (do expectKeyword "PRECISION"; pure .double) <|
  onToken (oneOf ["NUMERIC", "DECIMAL"]) numericType <|
  onToken (keyword "VARCHAR") (lengthOf .varchar 255) <|
  onToken (keyword "CHAR") (lengthOf .char 1) <|
  onToken (keyword "TIME") (withTimeZone .timeTz .time) <|
  onToken (keyword "TIMESTAMP") (withTimeZone .timestampTz .timestamp) <|
  onToken (keyword "BIT")
    (onToken (keyword "VARYING") (bitLengthOf .bitVarying) (bitLengthOf .bit)) <|
  onToken (keyword "VARYING") (bitLengthOf .bitVarying) <|
  onToken (keyword "ARRAY")
    (do
      expect .lBracket
      let element ← r.dataType
      expect .rBracket
      pure (.array element)) <|
  ifNext (fun token => (nameText token).isSome) customType (failAt .eof .expectedDataType)

def parseDataType : SqlParser DataType := do
  let base ← parseDataTypeBase r
  onToken (· = .lBracket) (do expect .rBracket; pure (.array base)) (pure base)

end DataTypes

section Windows

variable (r : Calls)

def orderByItem : SqlParser (OrderByItem Expr) := do
  let expr ← r.expr
  let direction ← sortDirection
  let nulls ← nullsOrder
  pure ⟨expr, direction, nulls⟩

/-- A list of items behind a word and `BY`. -/
def listBy {α : Type} (word : String) (item : SqlParser α) : SqlParser (List α) :=
  onToken (keyword word) (do expectKeyword "BY"; commaSeparated item) (pure [])

def parseFrameBound : SqlParser (FrameBound Expr) :=
  onToken (keyword "UNBOUNDED")
    (onToken (keyword "PRECEDING") (pure .unboundedPreceding)
      (do expectKeyword "FOLLOWING"; pure .unboundedFollowing)) <|
  onToken (keyword "CURRENT") (do expectKeyword "ROW"; pure .currentRow) do
    let expr ← r.expr
    onToken (keyword "PRECEDING") (pure (.preceding expr))
      (do expectKeyword "FOLLOWING"; pure (.following expr))

/-- A single bound goes to the current row. -/
def parseFrame : SqlParser (FrameClause Expr) :=
  onToken (keyword "BETWEEN")
    (do
      let start ← parseFrameBound r
      expectKeyword "AND"
      let stop ← parseFrameBound r
      pure ⟨start, some stop⟩)
    (do
      let start ← parseFrameBound r
      pure ⟨start, some .currentRow⟩)

def parseWindowSpec : SqlParser (WindowSpec Expr) :=
  parenthesized do
    let partitionBy ← listBy "PARTITION" r.expr
    let orderBy ← listBy "ORDER" (orderByItem r)
    let frame ← optionally (oneOf ["ROWS", "RANGE", "GROUPS"]) (parseFrame r)
    pure ⟨partitionBy, orderBy, frame⟩

end Windows

section Primary

def datePartNamed : String → Option DatePart
  | "YEAR" => some .year
  | "YEARS" => some .year
  | "MONTH" => some .month
  | "MONTHS" => some .month
  | "DAY" => some .day
  | "DAYS" => some .day
  | "HOUR" => some .hour
  | "HOURS" => some .hour
  | "MINUTE" => some .minute
  | "MINUTES" => some .minute
  | "SECOND" => some .second
  | "SECONDS" => some .second
  | "MILLISECOND" => some .millisecond
  | "MILLISECONDS" => some .millisecond
  | "MICROSECOND" => some .microsecond
  | "MICROSECONDS" => some .microsecond
  | "DOW" => some .dow
  | "DOY" => some .doy
  | "ISODOW" => some .isoDow
  | "WEEK" => some .week
  | "WEEKS" => some .week
  | "QUARTER" => some .quarter
  | "QUARTERS" => some .quarter
  | "EPOCH" => some .epoch
  | "ISOYEAR" => some .isoYear
  | "TIMEZONE" => some .timezone
  | "TIMEZONE_HOUR" => some .timezoneHour
  | "TIMEZONE_MINUTE" => some .timezoneMinute
  | _ => none

def partText : Token → Option String
  | .ident s => some s
  | .string s => some s
  | .keyword k => some k
  | _ => none

def datePart (place : String) : SqlParser DatePart :=
  onSome partText
    (fun s =>
      match datePartNamed (toUppercase s) with
      | some part => pure part
      | none => fail (.unknownDatePart s))
    (failWith ("expected date part in " ++ place))

def literalOf : Token → Option Literal
  | .number n => some (.number n)
  | .string s => some (.string s)
  | .keyword k =>
      if toUppercase k = "TRUE" then some (.bool true)
      else if toUppercase k = "FALSE" then some (.bool false)
      else if toUppercase k = "NULL" then some .null
      else none
  | _ => none

/-- A function that is called without arguments. -/
def plainCall (name : String) : Expr := .function ⟨.single name, [], none, none⟩

/-- The keywords that are such a call by themselves. -/
def clockWord : Token → Option String
  | .keyword k =>
      if toUppercase k ∈
          ["CURRENT_DATE", "CURRENT_TIME", "CURRENT_TIMESTAMP", "LOCALTIME", "LOCALTIMESTAMP"] then
        some (toUppercase k)
      else none
  | _ => none

variable (r : Calls)

/-- Behind a parenthesis. -/
def parseNested : SqlParser Expr :=
  ifNext (keyword "SELECT")
    (do
      let query ← r.select
      expect .rParen
      pure (.nestedSelect query))
    (do
      let expr ← r.expr
      expect .rParen
      pure expr)

def whenClause : SqlParser (WhenClause Expr) := do
  let condition ← r.expr
  expectKeyword "THEN"
  let result ← r.expr
  pure ⟨condition, result⟩

def whenStep (clauses : List (WhenClause Expr)) :
    SqlParser (List (WhenClause Expr) ⊕ List (WhenClause Expr)) :=
  onToken (keyword "WHEN") (do let clause ← whenClause r; pure (.inl (clauses ++ [clause])))
    (pure (.inr clauses))

/-- There is an operand unless `WHEN` comes first. -/
def caseHead : SqlParser (Option Expr × List (WhenClause Expr)) :=
  onToken (keyword "WHEN") (do let clause ← whenClause r; pure (none, [clause]))
    (do let operand ← r.expr; pure (some operand, []))

def parseCase : SqlParser Expr := do
  let head ← caseHead r
  let clauses ← iterate (whenStep r) head.2
  let elseClause ← optionally (keyword "ELSE") r.expr
  expectKeyword "END"
  pure (.case head.1 clauses elseClause)

def parseCast : SqlParser Expr :=
  parenthesized do
    let expr ← r.expr
    expectKeyword "AS"
    let dataType ← r.dataType
    pure (.typeCast expr dataType)

def parseExtract : SqlParser Expr :=
  parenthesized do
    let field ← datePart "EXTRACT"
    expectKeyword "FROM"
    let source ← r.expr
    pure (.extract field source)

def parseDateTrunc : SqlParser Expr :=
  parenthesized do
    let field ← datePart "DATE_TRUNC"
    expect .comma
    let source ← r.expr
    let zone ← optionally (keyword "AT") (do expectKeyword "TIME"; expectKeyword "ZONE"; r.expr)
    pure (.dateTrunc field source zone)

def parseDatePart : SqlParser Expr :=
  parenthesized do
    let field ← datePart "DATE_PART"
    expect .comma
    let source ← r.expr
    pure (.extract field source)

def parseNow : SqlParser Expr := do
  expect .lParen
  expect .rParen
  pure (plainCall "NOW")

def callArgs : SqlParser (List (FunctionArg Expr)) := do
  let _ ← flag (keyword "DISTINCT")
  onToken (· = .star) (pure [.star]) do
    let args ← commaSeparated r.expr
    pure (args.map .expr)

/-- Behind the name and the parenthesis. -/
def parseCall (name : String) : SqlParser Expr := do
  let args ← callArgs r
  expect .rParen
  let filter ←
    optionally (keyword "FILTER") (parenthesized do expectKeyword "WHERE"; r.expr)
  let overClause ← optionally (keyword "OVER") (parseWindowSpec r)
  pure (.function ⟨.single name, args, filter, overClause⟩)

/-- Behind the bracket. -/
def parseElements : SqlParser Expr := do
  let elements ← commaSeparated r.expr
  expect .rBracket
  pure (.array elements)

def qualified (name : String) : SqlParser Expr :=
  onToken (· = .dot) (do let column ← expectIdent; pure (.qualifiedIdentifier name column))
    (pure (.identifier name))

/-- Behind a name. -/
def parseNamed (name : String) : SqlParser Expr :=
  onToken (· = .lParen) (parseCall r name) <|
  if toUppercase name = "ARRAY" then
    onToken (· = .lBracket) (parseElements r) (qualified name)
  else qualified name

def parseParameter : SqlParser Expr :=
  onSome numberText (fun n => pure (.parameter ((parseU32 n).getD 1))) (pure (.parameter 1))

def parsePrimary : SqlParser Expr :=
  onSome literalOf (fun lit => pure (.literal lit)) <|
  onToken (· = .lParen) (parseNested r) <|
  onToken (keyword "CASE") (parseCase r) <|
  onToken (keyword "CAST") (parseCast r) <|
  onToken (keyword "EXTRACT") (parseExtract r) <|
  onToken (keyword "DATE_TRUNC") (parseDateTrunc r) <|
  onToken (keyword "DATE_PART") (parseDatePart r) <|
  onToken (keyword "NOW") parseNow <|
  onSome clockWord (fun word => pure (plainCall word)) <|
  onSome nameText (parseNamed r) <|
  onToken (· = .question) parseParameter <|
  onToken (· = .lBracket) (parseElements r) <|
  failAt .eof .unexpectedInExpression

end Primary

section Levels

/-- One more operator with its right operand. -/
def chainStep (operator : Token → Option BinaryOperator) (operand : SqlParser Expr) (left : Expr) :
    SqlParser (Expr ⊕ Expr) :=
  onSome operator (fun op => do let right ← operand; pure (.inl (.binaryOp left op right)))
    (pure (.inr left))

/-- Operands with operators between them, from left to right. -/
def chain (operator : Token → Option BinaryOperator) (operand : SqlParser Expr) :
    SqlParser Expr := do
  let left ← operand
  iterate (chainStep operator operand) left

def orOperator : Token → Option BinaryOperator
  | .keyword k => if toUppercase k = "OR" then some .or else none
  | _ => none

def andOperator : Token → Option BinaryOperator
  | .keyword k => if toUppercase k = "AND" then some .and else none
  | _ => none

def comparisonOperator : Token → Option BinaryOperator
  | .eq => some .equals
  | .neq => some .notEquals
  | .lt => some .lessThan
  | .gt => some .greaterThan
  | .ltEq => some .lessOrEqual
  | .gtEq => some .greaterOrEqual
  | _ => none

def likeOperator : Token → Option BinaryOperator
  | .keyword k =>
      if toUppercase k = "LIKE" then some .like
      else if toUppercase k = "ILIKE" then some .iLike
      else none
  | _ => none

def bitwiseOrOperator : Token → Option BinaryOperator
  | .pipe => some .bitwiseOr
  | _ => none

def bitwiseXorOperator : Token → Option BinaryOperator
  | .caret => some .bitwiseXor
  | _ => none

def bitwiseAndOperator : Token → Option BinaryOperator
  | .ampersand => some .bitwiseAnd
  | _ => none

def shiftOperator : Token → Option BinaryOperator
  | .ltLt => some .bitwiseShiftLeft
  | .gtGt => some .bitwiseShiftRight
  | _ => none

def additiveOperator : Token → Option BinaryOperator
  | .plus => some .plus
  | .minus => some .minus
  | _ => none

def multiplicativeOperator : Token → Option BinaryOperator
  | .star => some .multiply
  | .slash => some .divide
  | .percent => some .modulo
  | _ => none

def unaryOperator : Token → Option UnaryOperator
  | .minus => some .minus
  | .plus => some .plus
  | .tilde => some .bitwiseNot
  | _ => none

/-- `ANY` or `SOME`. -/
def quantified (op : BinaryOperator) (left : Expr) : Token → Option (Expr → Expr)
  | .keyword k =>
      if toUppercase k = "ANY" then some (.anyComparison op left)
      else if toUppercase k = "SOME" then some (.someComparison op left)
      else none
  | _ => none

variable (r : Calls)

def castStep (expr : Expr) : SqlParser (Expr ⊕ Expr) :=
  onTokens [(· = .colon), (· = .colon)]
    (do let dataType ← r.dataType; pure (.inl (.typeCast expr dataType)))
    (pure (.inr expr))

def zoneStep (expr : Expr) : SqlParser (Expr ⊕ Expr) :=
  onTokens [keyword "AT", keyword "TIME", keyword "ZONE"]
    (do let zone ← r.bitwiseOr; pure (.inl (.atTimeZone expr zone)))
    (pure (.inr expr))

/-- A single colon, or words that are not all of `AT TIME ZONE`, are left. -/
def parsePostfix : SqlParser Expr := do
  let expr ← parsePrimary r
  let expr ← iterate (castStep r) expr
  iterate (zoneStep r) expr

def parseUnary : SqlParser Expr :=
  onSome unaryOperator (fun op => do let expr ← parsePostfix r; pure (.unaryOp op expr))
    (parsePostfix r)

def parseMultiplicative : SqlParser Expr := chain multiplicativeOperator (parseUnary r)

def parseAdditive : SqlParser Expr := chain additiveOperator (parseMultiplicative r)

def parseShift : SqlParser Expr := chain shiftOperator (parseAdditive r)

def parseBitwiseAnd : SqlParser Expr := chain bitwiseAndOperator (parseShift r)

def parseBitwiseXor : SqlParser Expr := chain bitwiseXorOperator (parseBitwiseAnd r)

def parseBitwiseOr : SqlParser Expr := chain bitwiseOrOperator (parseBitwiseXor r)

/-- Behind `IN`. -/
def parseIn (left : Expr) : SqlParser Expr :=
  onToken (· = .lParen)
    (ifNext (keyword "SELECT")
      (do
        let query ← r.select
        expect .rParen
        pure (.inSubquery left false query))
      (do
        let list ← commaSeparated r.expr
        expect .rParen
        pure (.inList left false list)))
    (failWith "expected ( after IN")

/-- Behind `BETWEEN`. -/
def parseBetween (left : Expr) : SqlParser Expr := do
  let low ← parseBitwiseOr r
  expectKeyword "AND"
  let high ← parseBitwiseOr r
  pure (.between left false low high)

/-- Behind `IS`. -/
def parseIs (left : Expr) : SqlParser Expr :=
  onToken (keyword "NULL") (pure (.isNull left)) do
    expectKeyword "NOT"
    expectKeyword "NULL"
    pure (.isNotNull left)

/-- Behind the left operand. -/
def comparisonTail (left : Expr) : SqlParser Expr :=
  onSome comparisonOperator
    (fun op =>
      onSome (quantified op left) (fun comparison => do
          let right ← parsePrimary r
          pure (comparison right))
        (do
          let right ← parseBitwiseOr r
          pure (.binaryOp left op right))) <|
  onToken (keyword "IN") (parseIn r left) <|
  onToken (keyword "BETWEEN") (parseBetween r left) <|
  onSome likeOperator (fun op => do
      let right ← parseBitwiseOr r
      pure (.binaryOp left op right)) <|
  onToken (keyword "IS") (parseIs left) <|
  pure left

def parseComparison : SqlParser Expr := do
  let left ← parseBitwiseOr r
  comparisonTail r left

def parseNotExpr : SqlParser Expr :=
  onToken (keyword "NOT") (do let expr ← parseComparison r; pure (.unaryOp .not expr))
    (parseComparison r)

def parseAndExpr : SqlParser Expr := chain andOperator (parseNotExpr r)

def parseOrExpr : SqlParser Expr := chain orOperator (parseAndExpr r)

def parseExpr : SqlParser Expr := parseOrExpr r

end Levels

end PostgressRs.Sql.ExprParser
