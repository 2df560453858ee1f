import Mathlib.Data.List.Basic

/-!
The tokens of SQL and the scanner that finds them (`src/sql/parser/token.rs`).
-/

namespace PostgressRs.Sql.Tokenizer

inductive Token where
  | keyword (k : String)
  | ident (s : String)
  | number (n : String)
  | string (s : String)
  | lParen
  | rParen
  | lBracket
  | rBracket
  | comma
  | dot
  | semicolon
  | colon
  | eq
  | neq
  | lt
  | gt
  | ltEq
  | gtEq
  | plus
  | minus
  | star
  | slash
  | percent
  | ampersand
  | pipe
  | caret
  | tilde
  | bang
  | question
  | ltLt
  | gtGt
  | eof
deriving DecidableEq, Repr

section Words

/-- What `to_uppercase` does to the letters of the words it is compared with: besides
the ASCII letters only the dotless i and the long s become ASCII letters. -/
def upperChar (char : Char) : Char :=
  if char = Char.ofNat 0x131 then 'I'
  else if char = Char.ofNat 0x17F then 'S'
  else char.toUpper

def toUppercase (s : String) : String := String.ofList (s.toList.map upperChar)

def keywords : List String :=
  ["SELECT", "INSERT", "UPDATE", "DELETE", "CREATE", "DROP", "ALTER", "TABLE", "INDEX", "VIEW",
    "PRIMARY", "KEY", "FOREIGN", "REFERENCES", "CONSTRAINT", "NOT", "NULL", "DEFAULT", "CHECK",
    "UNIQUE", "INT", "INTEGER", "BIGINT", "SMALLINT", "FLOAT", "DOUBLE", "PRECISION", "REAL",
    "NUMERIC", "DECIMAL", "VARCHAR", "CHAR", "TEXT", "BOOLEAN", "BOOL", "DATE", "TIME", "TIMETZ",
    "TIMESTAMP", "TIMESTAMPTZ", "INTERVAL", "JSON", "JSONB", "UUID", "ARRAY", "SERIAL",
    "BIGSERIAL", "SMALLSERIAL", "MONEY", "INET", "CIDR", "MACADDR", "MACADDR8", "BIT", "VARYING",
    "TSVECTOR", "TSQUERY", "FROM", "WHERE", "JOIN", "INNER", "LEFT", "RIGHT", "FULL", "CROSS",
    "ON", "USING", "AS", "AND", "OR", "IN", "BETWEEN", "LIKE", "ILIKE", "INTO", "IS", "EXISTS",
    "ANY", "ALL", "SOME", "ORDER", "BY", "ASC", "DESC", "NULLS", "FIRST", "LAST", "GROUP",
    "HAVING", "LIMIT", "OFFSET", "DISTINCT", "RETURNING", "VALUES", "SET", "UNION", "INTERSECT",
    "EXCEPT", "CONFLICT", "NOTHING", "DO", "EXCLUDED", "BEGIN", "START", "TRANSACTION", "COMMIT",
    "ROLLBACK", "ABORT", "ISOLATION", "LEVEL", "READ", "WRITE", "SERIALIZABLE", "REPEATABLE",
    "COMMITTED", "UNCOMMITTED", "DEFERRABLE", "EXPLAIN", "CASCADE", "RESTRICT", "IF", "TRUE",
    "FALSE", "CASE", "WHEN", "THEN", "ELSE", "END", "OVER", "PARTITION", "FILTER", "ROWS",
    "RANGE", "GROUPS", "CURRENT", "ROW", "PRECEDING", "FOLLOWING", "UNBOUNDED", "ADD", "COLUMN",
    "RENAME", "TO", "DATA", "TYPE", "WINDOW", "FETCH", "NEXT", "ONLY", "WITH", "RECURSIVE",
    "MATERIALIZED", "UNMATERIALIZED", "FORCE", "ENABLE", "DISABLE", "SECURITY", "GRANT", "REVOKE",
    "ROLE", "ADMIN", "OPTION", "PUBLIC", "TRIGGER", "FUNCTION", "PROCEDURE", "RETURNS", "RETURN",
    "DECLARE", "LOOP", "WHILE", "FOR", "REVERSE", "EXIT", "CONTINUE", "ELSIF", "PERFORM",
    "EXECUTE", "RAISE", "NOTICE", "EXCEPTION", "WARNING", "INFO", "DEBUG", "LOG", "ASSERT",
    "FOUND", "NEW", "OLD", "TG_OP", "TG_TABLE_NAME", "TG_TABLE_SCHEMA", "TG_WHEN", "TG_LEVEL",
    "TG_ARGV", "CAST", "NOW", "CURRENT_DATE", "CURRENT_TIME", "CURRENT_TIMESTAMP", "EXTRACT",
    "DATE_TRUNC", "DATE_PART", "AT", "ZONE", "YEAR", "MONTH", "DAY", "HOUR", "MINUTE", "SECOND",
    "MILLISECOND", "MICROSECOND", "DOW", "DOY", "ISODOW", "WEEK", "QUARTER", "EPOCH", "ISOYEAR",
    "TIMEZONE", "TIMEZONE_HOUR", "TIMEZONE_MINUTE", "LOCALTIME", "LOCALTIMESTAMP", "GREATEST",
    "LEAST", "COALESCE", "NULLIF", "ABS", "CEIL", "FLOOR", "ROUND", "TRUNC", "SIGN", "POWER",
    "SQRT", "LN", "EXP", "LENGTH", "UPPER", "LOWER", "TRIM", "LTRIM", "RTRIM", "SUBSTRING",
    "REPLACE", "CONCAT", "CONCAT_WS", "INITCAP", "POSITION", "STRPOS", "OVERLAY", "LPAD", "RPAD",
    "REGEXP_REPLACE", "REGEXP_MATCHES", "SEQUENCE", "INCREMENT", "CACHE", "CYCLE", "OWNED",
    "MINVALUE", "MAXVALUE", "MERGE", "MATCHED", "SOURCE", "TARGET", "COMPOSITE", "ENUM",
    "NOCYCLE", "NO", "NOMINVALUE", "NOMAXVALUE", "NOCACHE", "SCHEMA", "AUTHORIZATION", "SESSION",
    "LOCAL", "CHARACTERISTICS"]

end Words

section Scanner

def apostrophe : Char := Char.ofNat 39

def quotation : Char := Char.ofNat 34

def newline : Char := Char.ofNat 10

/-- A space, a tab, a newline or a carriage return. -/
def isBlank (char : Char) : Bool :=
  char = ' ' ∨ char = Char.ofNat 9 ∨ char = newline ∨ char = Char.ofNat 13

/-- The tokens of a single character that begin no other token. -/
def punctuation : Char → Option Token
  | '(' => some .lParen
  | ')' => some .rParen
  | '[' => some .lBracket
  | ']' => some .rBracket
  | ',' => some .comma
  | '.' => some .dot
  | ';' => some .semicolon
  | ':' => some .colon
  | '+' => some .plus
  | '*' => some .star
  | '/' => some .slash
  | '%' => some .percent
  | '&' => some .ampersand
  | '|' => some .pipe
  | '^' => some .caret
  | '~' => some .tilde
  | '?' => some .question
  | '=' => some .eq
  | _ => none

/-- A token that ends at a delimiter, or at the end of the text. -/
def delimited (delimiter : Char) (rest : List Char) : String × List Char :=
  (String.ofList (rest.takeWhile (· ≠ delimiter)), (rest.dropWhile (· ≠ delimiter)).drop 1)

def isNumeral (char : Char) : Bool := char.isDigit ∨ char = '.'

def isWordChar (char : Char) : Bool := char.isAlphanum ∨ char = '_'

def wordToken (s : String) : Token :=
  if toUppercase s ∈ keywords then .keyword s else .ident s

/-- One round of the loop: the token it finds, if any, and the text behind it.  The
test for a doubled quote in a literal comes after the loop has ended at the quote. -/
def scan (char : Char) (rest : List Char) : Option Token × List Char :=
  if isBlank char then (none, rest)
  else if (punctuation char).isSome then (punctuation char, rest)
  else if char = '-' then
    match rest with
    | '-' :: _ => (none, rest.dropWhile (· ≠ newline))
    | _ => (some .minus, rest)
  else if char = '<' then
    match rest with
    | '>' :: rest => (some .neq, rest)
    | '=' :: rest => (some .ltEq, rest)
    | '<' :: rest => (some .ltLt, rest)
    | _ => (some .lt, rest)
  else if char = '>' then
    match rest with
    | '=' :: rest => (some .gtEq, rest)
    | '>' :: rest => (some .gtGt, rest)
    | _ => (some .gt, rest)
  else if char = '!' then
    match rest with
    | '=' :: rest => (some .neq, rest)
    | _ => (some .bang, rest)
  else if char = apostrophe then
    let (s, rest) := delimited apostrophe rest
    (some (.string s), rest)
  else if char = quotation then
    let (s, rest) := delimited quotation rest
    (some (.ident s), rest)
  else if char.isDigit then
    (some (.number (String.ofList (char :: rest.takeWhile isNumeral))), rest.dropWhile isNumeral)
  else if char.isAlpha ∨ char = '_' then
    (some (wordToken (String.ofList (char :: rest.takeWhile isWordChar))),
      rest.dropWhile isWordChar)
  else (none, rest)

/-- Each round takes at least one character. -/
def tokenizeFrom : Nat → List Char → List Token
  | _, [] => [.eof]
  | 0, _ :: _ => []
  | fuel + 1, char :: rest =>
      let (token, rest) := scan char rest
      token.toList ++ tokenizeFrom fuel rest

def tokenize (sql : String) : List Token := tokenizeFrom sql.toList.length sql.toList

end Scanner

end PostgressRs.Sql.Tokenizer
