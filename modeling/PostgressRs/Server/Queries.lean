import Mathlib.Algebra.Group.Nat.Defs
import PostgressRs.Executor.HeapAccess
import PostgressRs.Protocol.Backend

/-!
Queries and statements (`src/protocol/codes.rs`, `src/sql/ast.rs`), and the
conversions between them and the executor's data (`src/server/utils.rs`).  Fields
that no handler reads are left out.
-/

namespace PostgressRs.Server.Queries

open PostgressRs.Executor.HeapAccess
open PostgressRs.Lib.ByteBuffer
open PostgressRs.Lib.Utf8
open PostgressRs.Protocol.Backend
open PostgressRs.Txn.TransactionTable
open PostgressRs.Types

section Statements

inductive Literal where
  | number (n : String)
  | string (s : String)
  | bool (b : Bool)
  | null
  | blob (b : Bytes)
  | date (s : String)
  | time (s : String)
  | timestamp (s : String)
  | timestampTz (s : String)
  | interval (s : String)
  | json (s : String)
  | jsonB (s : String)
  | uuid (s : String)
  | money (s : String)
  | bit (s : String)
  | hex (s : String)
deriving DecidableEq

/-- `ε` has the kinds of expressions that the handlers do not tell apart. -/
inductive Expr (ε : Type) where
  | identifier (name : String)
  | literal (lit : Literal)
  | other (expr : ε)
deriving DecidableEq

structure ObjectName where
  parts : List String
deriving DecidableEq

/-- `κ` has the clauses of a `SELECT` that only the executor looks at. -/
structure SelectStatement (κ : Type) where
  ctes : List String
  clauses : κ
deriving DecidableEq

variable (ε κ : Type)

inductive InsertSource where
  | values (rows : List (List (Expr ε)))
  | select (select : SelectStatement κ)
deriving DecidableEq

structure InsertStatement where
  table : ObjectName
  source : InsertSource ε κ
deriving DecidableEq

structure SetClause where
  column : String
  value : Expr ε
deriving DecidableEq

structure UpdateStatement where
  table : ObjectName
  setClauses : List (SetClause ε)
  whereClause : Option (Expr ε)
deriving DecidableEq

structure DeleteStatement where
  table : ObjectName
  whereClause : Option (Expr ε)
deriving DecidableEq

/-- The types that `handle_create_table_statement` gives an oid to. -/
inductive DataType where
  | int
  | bigInt
  | smallInt
  | text
  | varchar (length : UInt32)
  | boolean
  | other (name : String)
deriving DecidableEq

structure ColumnDef where
  name : String
  dataType : DataType
deriving DecidableEq

structure CreateTableStatement where
  table : ObjectName
  columns : List ColumnDef
deriving DecidableEq

structure CreateIndexStatement where
  name : ObjectName
  table : ObjectName
  columns : List (Expr ε)
deriving DecidableEq

structure DropTableStatement where
  table : ObjectName
deriving DecidableEq

structure BeginStatement where
  isolationLevel : Option IsolationLevel
deriving DecidableEq

structure SetStatement where
  name : String
deriving DecidableEq

inductive Statement where
  | select (select : SelectStatement κ)
  | insert (insert : InsertStatement ε κ)
  | update (update : UpdateStatement ε)
  | delete (delete : DeleteStatement ε)
  | createTable (create : CreateTableStatement)
  | createIndex (create : CreateIndexStatement ε)
  | createView
  | createMaterializedView
  | createSequence
  | createType
  | createSchema
  | alterTable
  | dropTable (drop : DropTableStatement)
  | dropIndex
  | merge
  | set (set : SetStatement)
  | begin (begin : BeginStatement)
  | commit
  | rollback
  | explain (inner : Statement)

/-- The queries of the simple parser, and those that hold a parsed statement. -/
inductive Query where
  | select (table : Oid) (whereClause : Option String) (columns : List String)
  | insert (table : Oid) (values : List Bytes)
  | createTable (name : String) (columns : List (String × Oid))
  | dropTable (name : String)
  | createIndex (name : String) (table : String) (column : String)
  | update (table : Oid) (column : String) (value : Bytes) (whereClause : Option String)
  | delete (table : Oid) (whereClause : Option String)
  | begin (mode : Option String)
  | commit
  | rollback
  | statement (stmt : Statement ε κ)

end Statements

section Text

/-- What the handlers use of the standard library's Unicode tables and of derived
`Debug` implementations. -/
class TextFormat (ε : Type) where
  toUppercase : String → String
  toLowercase : String → String
  debugExpr : Expr ε → String

export TextFormat (toUppercase toLowercase debugExpr)

/-- The bytes of a value in `VALUES` or `SET`. -/
def literalBytes : Literal → Bytes
  | .number n => asBytes n
  | .string s => asBytes s
  | .bool b => asBytes (if b then "true" else "false")
  | .null => []
  | .blob b => b
  | .date s => asBytes s
  | .time s => asBytes s
  | .timestamp s => asBytes s
  | .timestampTz s => asBytes s
  | .interval s => asBytes s
  | .json s => asBytes s
  | .jsonB s => asBytes s
  | .uuid s => asBytes s
  | .money s => asBytes s
  | .bit s => asBytes s
  | .hex s => asBytes s

def exprBytes {ε : Type} [TextFormat ε] : Expr ε → Bytes
  | .literal lit => literalBytes lit
  | expr => asBytes (debugExpr expr)

/-- `parts.join(".")`. -/
def ObjectName.join (self : ObjectName) : String := ".".intercalate self.parts

/-- `char::is_whitespace`. -/
def isWhitespace (char : Char) : Bool :=
  (9 ≤ char.toNat ∧ char.toNat ≤ 13) ∨ char.toNat = 0x20 ∨ char.toNat = 0x85 ∨
    char.toNat = 0xA0 ∨ char.toNat = 0x1680 ∨ (0x2000 ≤ char.toNat ∧ char.toNat ≤ 0x200A) ∨
    char.toNat = 0x2028 ∨ char.toNat = 0x2029 ∨ char.toNat = 0x202F ∨ char.toNat = 0x205F ∨
    char.toNat = 0x3000

/-- `trim_start_matches` and `trim_end_matches`. -/
def trimMatches (p : Char → Bool) (chars : List Char) : List Char :=
  ((chars.dropWhile p).reverse.dropWhile p).reverse

def trim (chars : List Char) : List Char := trimMatches isWhitespace chars

/-- `s.splitn(count, sep)`. -/
def splitn (sep : Char) : Nat → List Char → List (List Char)
  | 0, _ => []
  | 1, chars => [chars]
  | count + 2, chars =>
      match chars.dropWhile (· ≠ sep) with
      | [] => [chars]
      | _ :: rest => chars.takeWhile (· ≠ sep) :: splitn sep (count + 1) rest

/-- `parse::<usize>().ok()`. -/
def parseUsize (chars : List Char) : Option Nat :=
  let digits :=
    match chars with
    | '+' :: rest => rest
    | _ => chars
  if digits ≠ [] ∧ digits.all Char.isDigit then
    let value := digits.foldl (fun acc char => acc * 10 + (char.toNat - 48)) 0
    if value < 2 ^ 64 then some value else none
  else none

def apostrophe : Char := Char.ofNat 39

def parseFilter (s : String) : Except String Filter :=
  match splitn '=' 3 s.toList with
  | [column, _, value] =>
      .ok
        { column := (parseUsize (trim column)).getD 0
          value := asBytes (String.ofList (trimMatches (· = apostrophe) (trim value))) }
  | _ => .error ("unsupported filter format: " ++ s)

/-- `where_clause.as_ref().map(|s| parse_filter(s)).transpose()`. -/
def parseWhere : Option String → Except String (Option Filter)
  | none => .ok none
  | some s => (parseFilter s).map some

end Text

section Feed

variable {ε κ : Type}

/-- The two parsers of `src/protocol/parser.rs`: that of `src/sql/parser.rs`, and the
simple one for what the first does not parse. -/
structure Parsers (ε κ : Type) where
  parse : List Char → Option (Statement ε κ)
  parseQueryLegacy : List Char → Option (Query ε κ)

def trimEndMatches (p : Char → Bool) (chars : List Char) : List Char :=
  (chars.reverse.dropWhile p).reverse

def parseQuery (parsers : Parsers ε κ) (chars : List Char) : Option (Query ε κ) :=
  let chars := trim (trimEndMatches (· = ';') (trim chars))
  if chars.isEmpty then none
  else
    match parsers.parse chars with
    | some stmt => some (.statement stmt)
    | none => parsers.parseQueryLegacy chars

/-- The query that a text completes, and the buffer from then on.  The buffer only
ever takes whole texts and loses whole characters, so it is kept as characters. -/
def feed (parsers : Parsers ε κ) (buffer data : List Char) :
    Option (Query ε κ) × List Char :=
  let buffer := buffer ++ data
  match buffer.findIdx? fun char => char = Char.ofNat 10 ∨ char = ';' with
  | some pos =>
      let line := trim (buffer.take (pos + 1))
      if line.isEmpty then (none, buffer.drop (pos + 1)) else (parseQuery parsers line, [])
  | none => (none, buffer)

end Feed

section Messages

structure SelectResult where
  columns : List String
  rows : List (List String)
deriving DecidableEq

/-- The status of a connection with the given `current_xid`. -/
def txStatus (currentXid : Option TransactionId) : TransactionStatus :=
  if currentXid.isSome then .inTransaction else .idle

/-- The two messages of `send_error`. -/
def errorMessages (msg : String) : List BackendMessage :=
  [.errorResponse [{ fieldType := 77, value := msg }], .readyForQuery .idle]

def dataRow (row : List String) : BackendMessage :=
  .dataRow (row.map fun value => some (asBytes value))

def resultField (i : Nat) (name : String) : FieldDescription where
  name := name
  tableOid := ⟨0⟩
  columnAttr := Int16.ofNat i + 1
  typeOid := ⟨25⟩
  typeSize := -1
  typeMod := -1
  format := 0

def buildSelectMessages (result : SelectResult) : List BackendMessage :=
  if result.rows.isEmpty then [.rowDescriptionEmpty, .commandComplete "SELECT 0"]
  else
    .rowDescription (result.columns.zipIdx.map fun entry => resultField entry.2 entry.1) ::
      (result.rows.map dataRow ++ [.commandComplete s!"SELECT {result.rows.length}"])

def relationField (rel : Relation) (attr : Attribute) : FieldDescription where
  name := attr.name
  tableOid := rel.relOid
  columnAttr := attr.attnum
  typeOid := attr.typeOid
  typeSize := -1
  typeMod := attr.typmod
  format := 0

/-- The messages of `send_rows` for a scan that found rows. -/
def rowMessages (rel : Relation) (rows : List Row) : List BackendMessage :=
  .rowDescription (rel.tupleDesc.fields.map (relationField rel)) ::
    (rows.map (fun row => dataRow row.2) ++ [.commandComplete s!"SELECT {rows.length}"])

end Messages

end PostgressRs.Server.Queries
