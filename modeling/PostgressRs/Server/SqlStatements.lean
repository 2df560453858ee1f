import PostgressRs.Executor.SelectValues
import PostgressRs.Server.StatementSplitting
import PostgressRs.Sql.DmlRoundTrip

/-!
The server with its SQL parser and its executor of selects: `parse_query` of
`src/protocol/parser.rs`, `Query::from_statement` of `src/protocol/codes.rs`, and
`execute_select_with_snapshot` of `src/executor/select/mod.rs`.
-/

namespace PostgressRs.Server.SqlStatements

open PostgressRs.Executor.HeapAccess
open PostgressRs.Executor.IndexScan (resolveTable)
open PostgressRs.Executor.SelectExecutor (executeSelect)
open PostgressRs.Lib.ByteBuffer
open PostgressRs.Lib.Procedure
open PostgressRs.Lib.ReadBack
open PostgressRs.Lib.Utf8
open PostgressRs.RelationCatalog
open PostgressRs.Server.Queries
open PostgressRs.Server.QueryHandlers
open PostgressRs.Server.StatementSplitting
open PostgressRs.Sql.Tokenizer
open PostgressRs.Sql.TokenText
open PostgressRs.Storage.PageStore
open PostgressRs.Txn.TransactionTable
open PostgressRs.Wal.LogRecord
open PostgressRs.Wal.WriteAheadLog

section Translation

def toLiteral : Sql.Ast.Literal → Literal
  | .number n => .number n
  | .string s => .string s
  | .bool b => .bool b
  | .null => .null

def toExpr : Sql.Ast.Expr → Expr Sql.Ast.Expr
  | .identifier name => .identifier name
  | .literal lit => .literal (toLiteral lit)
  | expr => .other expr

def toName (name : Sql.Ast.ObjectName) : ObjectName := ⟨name.parts⟩

def toSource : Sql.Ast.InsertSource Sql.Ast.Expr Sql.Ast.SelectStatement →
    InsertSource Sql.Ast.Expr Sql.Ast.SelectStatement
  | .values rows => .values (rows.map fun row => row.map toExpr)
  | .select select => .select ⟨[], select⟩

def toSetClause (clause : Sql.Ast.SetClause Sql.Ast.Expr) : SetClause Sql.Ast.Expr :=
  ⟨clause.column, toExpr clause.value⟩

/-- The types without an oid of their own are not told apart. -/
def toDataType : Sql.Ast.DataType → DataType
  | .int => .int
  | .bigInt => .bigInt
  | .smallInt => .smallInt
  | .text => .text
  | .varchar length => .varchar (UInt32.ofNat length)
  | .boolean => .boolean
  | .custom parts => .other (".".intercalate parts)
  | _ => .other ""

def toColumnDef (column : Sql.Ast.ColumnDef Sql.Ast.Expr) : ColumnDef :=
  ⟨column.name, toDataType column.dataType⟩

def toIsolationLevel : Sql.Ast.IsolationLevel → IsolationLevel
  | .serializable => .serializable
  | .repeatableRead => .repeatableRead
  | .readCommitted => .readCommitted
  | .readUncommitted => .readUncommitted

def cteNames (withClause : Option (Sql.Ast.WithClause Sql.Ast.Statement)) : List String :=
  withClause.elim [] fun clause => clause.ctes.map Sql.Ast.CommonTableExpr.name

/-- A statement without what no handler reads. -/
def toStatement : Sql.Ast.Statement → Statement Sql.Ast.Expr Sql.Ast.SelectStatement
  | .select withClause select => .select ⟨cteNames withClause, select⟩
  | .insert insert => .insert ⟨toName insert.table, toSource insert.source⟩
  | .update update =>
      .update ⟨toName update.table, update.setClauses.map toSetClause,
        update.whereClause.map toExpr⟩
  | .delete delete => .delete ⟨toName delete.table, delete.whereClause.map toExpr⟩
  | .createTable create => .createTable ⟨toName create.table, create.columns.map toColumnDef⟩
  | .createIndex create =>
      .createIndex ⟨toName create.name, toName create.table,
        create.columns.map fun column => toExpr column.expr⟩
  | .createView _ => .createView
  | .createMaterializedView _ => .createMaterializedView
  | .createSequence _ => .createSequence
  | .createType _ => .createType
  | .createSchema _ => .createSchema
  | .alterTable _ => .alterTable
  | .dropTable drop => .dropTable ⟨toName drop.table⟩
  | .dropIndex _ => .dropIndex
  | .merge _ => .merge
  | .set set => .set ⟨set.name⟩
  | .begin begin => .begin ⟨begin.isolationLevel.map toIsolationLevel⟩
  | .commit => .commit
  | .rollback => .rollback
  | .explain inner => .explain (toStatement inner)

end Translation

section Parsing

/-- There is fuel for a call at each token; the texts on which the parser does not come to
an end are none of its statements. -/
def parseSql (chars : List Char) : Option (Statement Sql.Ast.Expr Sql.Ast.SelectStatement) :=
  let sql := String.ofList chars
  match Sql.StatementParser.parse ((tokenize sql).length + 1) sql with
  | .ok stmt _ => some (toStatement stmt)
  | _ => none

def sqlParsers (legacy : List Char → Option (Query Sql.Ast.Expr Sql.Ast.SelectStatement)) :
    Parsers Sql.Ast.Expr Sql.Ast.SelectStatement where
  parse := parseSql
  parseQueryLegacy := legacy

/-- The text of a `Query` message with one statement, which its semicolon ends. -/
def Sends (tokens : List Token) (sql : String) : Prop :=
  ∃ body, sql.toList = body ++ [';'] ∧ (∀ char ∈ body, endsLineChar char = false) ∧
    Writes tokens (trim body)

variable {tokens : List Token} {sql : String} {stmt : Sql.Ast.Statement}

theorem writes_nil (h : Writes tokens []) : tokens = [] := by
  have htokens : tokenize "" = tokens ++ [.eof] := tokenize_of_writes h
  have hempty : tokenize "" = [.eof] := rfl
  rw [hempty] at htokens
  cases tokens with
  | nil => rfl
  | cons token tokens => simp at htokens

/-- The statement that a text is read as. -/
theorem parseSql_of_reads {chars : List Char}
    (hreads : ∀ fuel, tokens.length < fuel →
      Reads (· = .eof) (Sql.StatementParser.parseStatement fuel) tokens stmt)
    (h : Writes tokens chars) : parseSql chars = some (toStatement stmt) := by
  have htext : Writes tokens (String.ofList chars).toList := by
    rw [String.toList_ofList]
    exact h
  have hlen : tokens.length < (tokenize (String.ofList chars)).length + 1 := by
    rw [tokenize_of_writes htext, List.length_append]
    omega
  simp only [parseSql, Sql.SelectRoundTrip.parse_of_reads (hreads _ hlen) htext]

/-- What a text sends is the query that a connection with an empty buffer goes on with. -/
theorem feed_of_sends
    (legacy : List Char → Option (Query Sql.Ast.Expr Sql.Ast.SelectStatement))
    (hreads : ∀ fuel, tokens.length < fuel →
      Reads (· = .eof) (Sql.StatementParser.parseStatement fuel) tokens stmt)
    (hne : tokens ≠ []) (h : Sends tokens sql) :
    feed (sqlParsers legacy) [] sql.toList = (some (.statement (toStatement stmt)), []) := by
  obtain ⟨body, hsql, hopen, hwrites⟩ := h
  have hsemicolon : ';' ∉ body := fun hmem => absurd (hopen _ hmem) (by decide)
  have hpos : (body ++ [';']).findIdx? (fun char => char = Char.ofNat 10 ∨ char = ';') =
      some body.length := by
    have hnone : body.findIdx? (fun char => char = Char.ofNat 10 ∨ char = ';') = none :=
      List.findIdx?_eq_none_iff.mpr hopen
    rw [List.findIdx?_append, hnone]
    exact congrArg some (Nat.zero_add _)
  have hline : trim (body ++ [';']) ≠ [] := by
    rw [trim_semicolon]
    simp
  have htrimmed : trim body ≠ [] := fun hnil => hne (writes_nil (hnil ▸ hwrites))
  have hquery : parseQuery (sqlParsers legacy) body = some (.statement (toStatement stmt)) := by
    have htrim : trim (trimEndMatches (· = ';') (trim body)) = trim body := by
      change trim (List.rdropWhile _ _) = _
      rw [rdropWhile_semicolon (notMem_trim hsemicolon), trim_trim]
    rw [parseQuery]
    simp only [htrim]
    rw [if_neg (by simpa using htrimmed)]
    simp only [sqlParsers, parseSql_of_reads hreads hwrites]
  rw [feed]
  simp only [List.nil_append, hsql, hpos]
  rw [List.take_of_length_le (by simp), if_neg (by simpa using hline),
    parseQuery_semicolon _ hsemicolon, hquery]

end Parsing

section Selects

variable [TextFormat Sql.Ast.Expr] [Bincode] [Executor.Evaluation.Scalars] {σ : Type}
  [StorageTrait σ]

/-- Reading tables leaves the log alone. -/
def onTables {α : Type} : Proc (Database σ) α → Proc (Schema σ) α :=
  within (fun schema => ⟨schema.cache, WAL.new 8192⟩) fun schema db =>
    { schema with cache := db.cache }

def selectExecutor (order : Executor.Grouping.Iteration) (stack : Nat) :
    SelectExecutor Sql.Ast.SelectStatement σ := fun select snapshot => do
  let catalog ← read Schema.catalog
  onTables
    (executeSelect order (resolveTable Sql.Ast.Expr catalog stack (some snapshot)) select.clauses)

end Selects

end PostgressRs.Server.SqlStatements
