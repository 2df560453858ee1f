import Mathlib.Data.List.Basic
import PostgressRs.Lib.TokenParser
import PostgressRs.Sql.Ast
import PostgressRs.Sql.ExprParser
import PostgressRs.Sql.SelectParser
import PostgressRs.Sql.Tokenizer
import PostgressRs.Sql.TokenStream

/-!
The parsers of the other statements and of a whole statement (`src/sql/parser/ddl.rs`,
`src/sql/parser/transaction.rs`, `src/sql/parser.rs`).
-/

namespace PostgressRs.Sql.StatementParser

open PostgressRs.Lib.TokenParser
open PostgressRs.Sql.Ast
open PostgressRs.Sql.ExprParser
open PostgressRs.Sql.SelectParser
open PostgressRs.Sql.Tokenizer
open PostgressRs.Sql.TokenStream

section Constraints

def ifNotExists : SqlParser Bool :=
  onToken (keyword "IF")
    (do
      expectKeyword "NOT"
      expectKeyword "EXISTS"
      pure true)
    (pure false)

def ifExists : SqlParser Bool :=
  onToken (keyword "IF") (do expectKeyword "EXISTS"; pure true) (pure false)

def names : SqlParser (List String) := parenthesized (commaSeparated expectIdent)

/-- The tokens before which a column definition ends.  The keywords of constraints are
tested before. -/
def endsColumn : Token → Bool
  | .keyword _ => true
  | .rParen => true
  | .comma => true
  | .eof => true
  | _ => false

variable (r : Calls)

/-- Behind `REFERENCES`. -/
def columnReference : SqlParser (ColumnConstraint Expr) := do
  let table ← objectName
  let column ← parenthesized expectIdent
  pure (.references table column none none)

def columnConstraints : SqlParser (List (ColumnConstraint Expr)) :=
  iterate
    (fun constraints =>
      onToken (keyword "NOT")
        (do
          expectKeyword "NULL"
          pure (.inl (constraints ++ [.notNull]))) <|
      onToken (keyword "NULL") (pure (.inl (constraints ++ [.null]))) <|
      onToken (keyword "PRIMARY")
        (do
          expectKeyword "KEY"
          pure (.inl (constraints ++ [.primaryKey]))) <|
      onToken (keyword "UNIQUE") (pure (.inl (constraints ++ [.unique]))) <|
      onToken (keyword "DEFAULT")
        (do
          let expr ← r.expr
          pure (.inl (constraints ++ [.default expr]))) <|
      onToken (keyword "REFERENCES")
        (do
          let reference ← columnReference
          pure (.inl (constraints ++ [reference]))) <|
      onToken (keyword "CHECK")
        (do
          let expr ← parenthesized r.expr
          pure (.inl (constraints ++ [.check expr]))) <|
      endAt .eof endsColumn (.inr constraints) .unexpectedInColumn)
    []

def parseColumnDef : SqlParser (ColumnDef Expr) := do
  let name ← expectIdent
  let dataType ← r.dataType
  let constraints ← columnConstraints r
  pure ⟨name, dataType, constraints⟩

def foreignKey : SqlParser (TableConstraint Expr) := do
  expectKeyword "KEY"
  let columns ← names
  expectKeyword "REFERENCES"
  let refTable ← objectName
  let refColumns ← names
  pure (.foreignKey columns refTable refColumns none none)

/-- A key of the table, or what else may be there. -/
def tableKey (otherwise : SqlParser (TableConstraint Expr)) : SqlParser (TableConstraint Expr) :=
  onToken (keyword "PRIMARY")
    (do
      expectKeyword "KEY"
      let columns ← names
      pure (.primaryKey columns)) <|
  onToken (keyword "UNIQUE") (do let columns ← names; pure (.unique columns)) otherwise

def parseTableConstraint : SqlParser (TableConstraint Expr) :=
  tableKey <|
  onToken (keyword "CHECK") (do let expr ← parenthesized r.expr; pure (.check expr)) <|
  onToken (keyword "FOREIGN") foreignKey <|
  failWith "unexpected token in table constraint"

end Constraints

section Create

variable (r : Calls)

/-- The columns and the constraints so far, with one more. -/
def tableElement (columns : List (ColumnDef Expr)) (constraints : List (TableConstraint Expr)) :
    SqlParser (List (ColumnDef Expr) × List (TableConstraint Expr)) :=
  onToken (keyword "PRIMARY")
    (do
      expectKeyword "KEY"
      let key ← names
      pure (columns, constraints ++ [.primaryKey key])) <|
  onToken (keyword "UNIQUE")
    (do
      let key ← names
      pure (columns, constraints ++ [.unique key])) <|
  onToken (keyword "CONSTRAINT")
    (do
      let _ ← expectIdent
      let constraint ← parseTableConstraint r
      pure (columns, constraints ++ [constraint]))
    (do
      let column ← parseColumnDef r
      pure (columns ++ [column], constraints))

/-- Up to the parenthesis.  The commas between the elements may be missing. -/
def tableElements : SqlParser (List (ColumnDef Expr) × List (TableConstraint Expr)) :=
  iterate
    (fun elements =>
      onToken (· = .rParen) (pure (.inr elements)) do
        let elements ← tableElement r elements.1 elements.2
        let _ ← flag (· = .comma)
        pure (.inl elements))
    ([], [])

def parseCreateTable : SqlParser Statement := do
  let ifNotExists ← ifNotExists
  let table ← objectName
  expect .lParen
  let elements ← tableElements r
  pure (.createTable ⟨table, elements.1, elements.2, ifNotExists⟩)

def indexColumn : SqlParser (IndexColumn Expr) := do
  let expr ← r.expr
  let direction ← sortDirection
  let nulls ← nullsOrder
  pure ⟨expr, direction, nulls⟩

def parseCreateIndex : SqlParser Statement := do
  let ifNotExists ← ifNotExists
  let name ← objectName
  expectKeyword "ON"
  let table ← objectName
  let columns ← parenthesized (commaSeparated (indexColumn r))
  pure (.createIndex ⟨name, table, columns, false, ifNotExists⟩)

def parseCreateView : SqlParser (CreateViewStatement SelectStatement) := do
  let name ← objectName
  let columns ← columnList
  expectKeyword "AS"
  let query ← r.select
  pure ⟨name, columns, query, false⟩

end Create

section Sequences

def i64Max : Int := 2 ^ 63 - 1

def numberOr (default : Int) : SqlParser Int :=
  onSome numberText (fun n => pure ((parseI64 n).getD default)) (pure default)

/-- Behind `INCREMENT BY`. -/
def signedNumber : SqlParser Int := do
  let negative ← flag (· = .minus)
  let n ← numberOr 1
  pure (if negative then -n else n)

variable (r : Calls)

/-- Behind `NO`; a word that is none of these is left. -/
def sequenceNo (sequence : CreateSequenceStatement) : SqlParser CreateSequenceStatement :=
  onToken (keyword "CYCLE") (pure { sequence with cycle := false }) <|
  onToken (keyword "MINVALUE") (pure { sequence with minValue := none }) <|
  onToken (keyword "MAXVALUE") (pure { sequence with maxValue := none }) <|
  onToken (keyword "CACHE") (pure { sequence with cache := none }) (pure sequence)

def sequenceOptions (sequence : CreateSequenceStatement) : SqlParser CreateSequenceStatement :=
  iterate
    (fun sequence =>
      onToken (keyword "AS")
        (do
          let dataType ← r.dataType
          pure (.inl { sequence with dataType := some dataType })) <|
      onToken (keyword "INCREMENT")
        (do
          expectKeyword "BY"
          let n ← signedNumber
          pure (.inl { sequence with increment := some n })) <|
      onToken (keyword "MINVALUE")
        (do
          let n ← numberOr 1
          pure (.inl { sequence with minValue := some n })) <|
      onToken (keyword "MAXVALUE")
        (do
          let n ← numberOr i64Max
          pure (.inl { sequence with maxValue := some n })) <|
      onToken (keyword "START")
        (do
          let _ ← flag (keyword "WITH")
          let n ← numberOr 1
          pure (.inl { sequence with start := some n })) <|
      onToken (keyword "CACHE")
        (do
          let n ← numberOr 1
          pure (.inl { sequence with cache := some n })) <|
      onToken (keyword "CYCLE") (pure (.inl { sequence with cycle := true })) <|
      onToken (keyword "NO")
        (do
          let sequence ← sequenceNo sequence
          pure (.inl sequence)) <|
      onToken (keyword "OWNED")
        (do
          expectKeyword "BY"
          let owner ← objectName
          pure (.inl { sequence with ownedBy := some owner })) <|
      pure (.inr sequence))
    sequence

def parseCreateSequence : SqlParser Statement := do
  let ifNotExists ← ifNotExists
  let name ← objectName
  let sequence ← sequenceOptions r
    { name, ifNotExists, dataType := none, increment := none, minValue := none, maxValue := none,
      start := none, cache := none, cycle := false, ownedBy := none }
  pure (.createSequence sequence)

end Sequences

section TypesAndSchemas

/-- `SUBTYPE` is no keyword of the scanner; as an identifier it is one here. -/
def isSubtype : Token → Bool
  | .keyword k => toUppercase k = "SUBTYPE"
  | .ident s => toUppercase s = "SUBTYPE"
  | _ => false

variable (r : Calls)

def subtype : SqlParser DataType :=
  onToken isSubtype (do expect .eq; r.dataType) (failWith "expected SUBTYPE")

def compositeAttribute : SqlParser CompositeAttribute := do
  let name ← expectIdent
  let dataType ← r.dataType
  let collation ← optionally (keyword "COLLATE") objectName
  pure ⟨name, dataType, collation⟩

def typeDefinition : SqlParser TypeDefinition :=
  onToken (keyword "ENUM")
    (do
      let values ← parenthesized (commaSeparated expectString)
      pure (.enum values)) <|
  onToken (keyword "RANGE")
    (onToken (· = .lParen)
      (do
        let dataType ← subtype r
        expect .rParen
        pure (.range dataType))
      (do
        let dataType ← subtype r
        pure (.range dataType))) <|
  onToken (· = .lParen)
    (do
      let attributes ← commaSeparated (compositeAttribute r)
      expect .rParen
      pure (.composite attributes)) <|
  failWith "expected ENUM, RANGE, or ( after CREATE TYPE ... AS"

def parseCreateType : SqlParser Statement := do
  let name ← objectName
  expectKeyword "AS"
  let definition ← typeDefinition r
  pure (.createType ⟨name, definition⟩)

def authorization : SqlParser (Option String) :=
  optionally (keyword "AUTHORIZATION") expectIdent

def parseCreateSchema : SqlParser Statement := do
  let ifNotExists ← ifNotExists
  onToken (keyword "AUTHORIZATION")
    (do
      let role ← expectIdent
      pure (.createSchema ⟨none, ifNotExists, some role⟩)) <|
    onSome nameText
      (fun name => do
        let role ← authorization
        pure (.createSchema ⟨some name, ifNotExists, role⟩))
      (pure (.createSchema ⟨none, ifNotExists, none⟩))

def parseCreate : SqlParser Statement := do
  expectKeyword "CREATE"
  onToken (keyword "TABLE") (parseCreateTable r) <|
    onToken (keyword "INDEX") (parseCreateIndex r) <|
    onToken (keyword "VIEW") (do let view ← parseCreateView r; pure (.createView view)) <|
    onToken (keyword "MATERIALIZED")
      (do
        expectKeyword "VIEW"
        let view ← parseCreateView r
        pure (.createMaterializedView view)) <|
    onToken (keyword "SEQUENCE") (parseCreateSequence r) <|
    onToken (keyword "TYPE") (parseCreateType r) <|
    onToken (keyword "SCHEMA") parseCreateSchema <|
    failWith
      "expected TABLE, INDEX, VIEW, MATERIALIZED VIEW, SEQUENCE, TYPE, or SCHEMA after CREATE"

end TypesAndSchemas

section Alter

variable (r : Calls)

/-- Behind `ALTER COLUMN` and its name. -/
def alterColumnAction : SqlParser (AlterColumnAction Expr) :=
  onToken (keyword "SET")
    (onToken (keyword "DEFAULT") (do let expr ← r.expr; pure (.setDefault expr)) <|
      onToken (keyword "NOT") (do expectKeyword "NULL"; pure .setNotNull) do
        expectKeyword "DATA"
        expectKeyword "TYPE"
        let dataType ← r.dataType
        pure (.setDataType dataType)) <|
  onToken (keyword "DROP")
    (onToken (keyword "DEFAULT") (pure .dropDefault) <|
      onToken (keyword "NOT") (do expectKeyword "NULL"; pure .dropNotNull)
        (failWith "expected DEFAULT or NOT NULL after DROP"))
    (failWith "expected SET or DROP after ALTER COLUMN")

def addColumn : SqlParser (AlterTableAction Expr) := do
  let _ ← flag (keyword "COLUMN")
  let column ← parseColumnDef r
  pure (.addColumn column)

def dropColumn : SqlParser (AlterTableAction Expr) := do
  let _ ← flag (keyword "COLUMN")
  let name ← expectIdent
  let ifExists ← ifExists
  let cascade ← flag (keyword "CASCADE")
  pure (.dropColumn name ifExists cascade)

def rename : SqlParser (AlterTableAction Expr) :=
  onToken (keyword "COLUMN")
    (do
      let oldName ← expectIdent
      expectKeyword "TO"
      let newName ← expectIdent
      pure (.renameColumn oldName newName))
    (do
      expectKeyword "TO"
      let newName ← objectName
      pure (.renameTable newName))

def alterColumn : SqlParser (AlterTableAction Expr) := do
  let _ ← flag (keyword "COLUMN")
  let name ← expectIdent
  let action ← alterColumnAction r
  pure (.alterColumn name action)

def parseAlter : SqlParser Statement := do
  expectKeyword "ALTER"
  expectKeyword "TABLE"
  let table ← objectName
  let action ←
    onToken (keyword "ADD") (addColumn r) <|
    onToken (keyword "DROP") dropColumn <|
    onToken (keyword "RENAME") rename <|
    onToken (keyword "ALTER") (alterColumn r) <|
    failWith "expected ADD, DROP, RENAME, or ALTER after ALTER TABLE"
  pure (.alterTable ⟨table, action⟩)

/-- Behind `TABLE` or `INDEX`. -/
def dropped : SqlParser (ObjectName × Bool × Bool) := do
  let ifExists ← ifExists
  let name ← objectName
  let cascade ← flag (keyword "CASCADE")
  pure (name, ifExists, cascade)

def parseDrop : SqlParser Statement := do
  expectKeyword "DROP"
  onToken (keyword "TABLE")
    (do
      let (table, ifExists, cascade) ← dropped
      pure (.dropTable ⟨table, ifExists, cascade⟩)) <|
    onToken (keyword "INDEX")
      (do
        let (name, ifExists, cascade) ← dropped
        pure (.dropIndex ⟨name, ifExists, cascade⟩))
      (failWith "expected TABLE or INDEX after DROP")

end Alter

section Merge

variable (r : Calls)

def mergeSource : SqlParser (MergeSource SelectStatement) :=
  onToken (· = .lParen)
    (do
      let query ← r.select
      expect .rParen
      pure (.subquery query))
    (do
      let name ← objectName
      pure (.table name))

/-- Behind `AS` any token is taken for the alias. -/
def mergeSourceAlias : SqlParser Unit :=
  onToken (keyword "AS") (do let _ ← next .eof; pure ()) <|
  onSome identText (fun _ => pure ()) (pure ())

def mergeSetClause : SqlParser (SetClause Expr) := do
  let parts ← sepBy (· = .dot) expectIdent
  expect .eq
  let value ← r.expr
  pure ⟨".".intercalate parts, value⟩

def parseMergeAction : SqlParser (MergeAction Expr) :=
  onToken (keyword "UPDATE")
    (do
      expectKeyword "SET"
      let setClauses ← commaSeparated (mergeSetClause r)
      pure (.update setClauses)) <|
  onToken (keyword "DELETE") (pure .delete) <|
  onToken (keyword "INSERT")
    (do
      let columns ← columnList
      expectKeyword "VALUES"
      let rows ← parenthesized (commaSeparated (commaSeparated r.expr))
      pure (.insert columns rows)) <|
  onToken (keyword "DO") (do expectKeyword "NOTHING"; pure .doNothing) <|
  failWith "expected UPDATE, DELETE, INSERT, or DO NOTHING in MERGE action"

/-- Behind `WHEN`. -/
def mergeClause : SqlParser (MergeClause Expr) := do
  let notMatched ← flag (keyword "NOT")
  expectKeyword "MATCHED"
  let condition ← optionally (keyword "AND") r.expr
  expectKeyword "THEN"
  let action ← parseMergeAction r
  pure (if notMatched then .whenNotMatched condition action else .whenMatched condition action)

def mergeClauses : SqlParser (List (MergeClause Expr)) :=
  iterate
    (fun clauses =>
      onToken (keyword "WHEN") (do let clause ← mergeClause r; pure (.inl (clauses ++ [clause])))
        (pure (.inr clauses)))
    []

def parseMerge : SqlParser (MergeStatement Expr SelectStatement) := do
  expectKeyword "MERGE"
  expectKeyword "INTO"
  let target ← objectName
  let _ ← tableAlias
  expectKeyword "USING"
  let source ← mergeSource r
  mergeSourceAlias
  expectKeyword "ON"
  let joinCondition ← r.expr
  let clauses ← mergeClauses r
  pure ⟨target, source, joinCondition, clauses⟩

end Merge

section Transactions

/-- Behind `ISOLATION LEVEL`. -/
def isolationLevel : SqlParser IsolationLevel :=
  onToken (keyword "SERIALIZABLE") (pure .serializable) <|
  onToken (keyword "REPEATABLE") (do expectKeyword "READ"; pure .repeatableRead) <|
  onToken (keyword "READ")
    (onToken (keyword "COMMITTED") (pure .readCommitted) <|
      onToken (keyword "UNCOMMITTED") (pure .readUncommitted)
        (failWith "expected COMMITTED or UNCOMMITTED")) <|
  failWith "expected isolation level"

/-- `READ WRITE` is not read only, and `WRITE` alone is. -/
def beginOptions (start : BeginStatement) : SqlParser BeginStatement :=
  iterate
    (fun options =>
      onToken (keyword "ISOLATION")
        (do
          expectKeyword "LEVEL"
          let level ← isolationLevel
          pure (.inl { options with isolationLevel := some level })) <|
      onToken (keyword "READ")
        (do
          expectKeyword "WRITE"
          pure (.inl { options with readOnly := false })) <|
      onToken (keyword "WRITE") (pure (.inl { options with readOnly := true })) <|
      onToken (keyword "DEFERRABLE") (pure (.inl { options with deferrable := true })) <|
      onToken (keyword "NOT")
        (do
          expectKeyword "DEFERRABLE"
          pure (.inl { options with deferrable := false })) <|
      pure (.inr options))
    start

def parseBegin : SqlParser BeginStatement := do
  onToken (keyword "BEGIN") (pure ()) <|
    onToken (keyword "START") (expectKeyword "TRANSACTION")
      (failWith "expected BEGIN or START TRANSACTION")
  beginOptions ⟨none, false, false⟩

def setValue : Token → Option SetValue
  | .string s => some (.string s)
  | .number n => some (.number n)
  | .ident s => some (.identifier s)
  | .keyword k => some (.identifier k)
  | _ => none

/-- A comma need not be followed by a value. -/
def setValues : SqlParser (List SetValue) :=
  iterate
    (fun values =>
      onSome setValue
        (fun value =>
          onToken (· = .comma) (pure (.inl (values ++ [value]))) (pure (.inr (values ++ [value]))))
        (pure (.inr values)))
    []

def parseSet : SqlParser Statement := do
  expectKeyword "SET"
  let name ← onTokens [keyword "TIME", keyword "ZONE"] (pure "TIME ZONE") expectIdent
  let _ ← flag (fun token => keyword "TO" token || token = .eq)
  let values ← setValues
  pure (.set ⟨name, values⟩)

end Transactions

section Statements

/-- What stands before the query of a common table expression; the parenthesis is taken
too. -/
structure CteHead where
  name : String
  columns : Option (List String)
  materialized : Option Bool
  opened : Bool

def cteHead : SqlParser CteHead := do
  let name ← expectIdent
  let columns ← columnList
  expectKeyword "AS"
  let materialized ←
    onToken (keyword "MATERIALIZED") (pure (some true)) <|
    onTokens [keyword "NOT", keyword "MATERIALIZED"] (pure (some false)) (pure none)
  let opened ← flag (· = .lParen)
  pure ⟨name, columns, materialized, opened⟩

/-- The last error of `parse_statement`. -/
def unexpected : Token → ParseError
  | .keyword k => .unexpectedKeyword k
  | token => .unexpectedToken token

def closing (opened : Bool) : SqlParser Unit := if opened then expect .rParen else pure ()

variable (r : Calls) (statement : SqlParser Statement)

def parseCte : SqlParser (CommonTableExpr Statement) := do
  let head ← cteHead
  let query ← statement
  closing head.opened
  pure ⟨head.name, head.columns, head.materialized, query⟩

def parseWithSelect : SqlParser Statement := do
  expectKeyword "WITH"
  let recursive ← flag (keyword "RECURSIVE")
  let ctes ← commaSeparated (parseCte statement)
  let select ← r.select
  pure (.select (some ⟨recursive, ctes⟩) select)

/-- At a parenthesis the statement is parsed again from the same token. -/
def parseStatementWith : SqlParser Statement :=
  ifNext (keyword "SELECT") (do let select ← parseSelect r; pure (.select none select)) <|
  ifNext (keyword "WITH") (parseWithSelect r statement) <|
  ifNext (keyword "INSERT") (do let insert ← parseInsert r; pure (.insert insert)) <|
  ifNext (keyword "UPDATE") (do let update ← parseUpdate r; pure (.update update)) <|
  ifNext (keyword "DELETE") (do let delete ← parseDelete r; pure (.delete delete)) <|
  ifNext (keyword "SET") parseSet <|
  ifNext (keyword "CREATE") (parseCreate r) <|
  ifNext (keyword "ALTER") (parseAlter r) <|
  ifNext (keyword "DROP") parseDrop <|
  ifNext (keyword "MERGE") (do let merge ← parseMerge r; pure (.merge merge)) <|
  ifNext (oneOf ["BEGIN", "START"]) (do let begin ← parseBegin; pure (.begin begin)) <|
  onToken (keyword "COMMIT") (pure .commit) <|
  onToken (oneOf ["ROLLBACK", "ABORT"]) (pure .rollback) <|
  onToken (keyword "EXPLAIN") (do let inner ← statement; pure (.explain inner)) <|
  ifNext (· = .lParen) statement <|
  failAt .eof unexpected

def parseStatement : Nat → SqlParser Statement
  | 0 => fun _ => .unfinished
  | fuel + 1 => parseStatementWith (calls fuel) (parseStatement fuel)

def parse (fuel : Nat) (sql : String) : Outcome Token ParseError Statement :=
  parseStatement fuel (tokenize sql)

end Statements

end PostgressRs.Sql.StatementParser
