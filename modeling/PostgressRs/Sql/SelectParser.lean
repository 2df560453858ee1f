import Mathlib.Data.List.Basic
import PostgressRs.Lib.TokenParser
import PostgressRs.Sql.Ast
import PostgressRs.Sql.ExprParser
import PostgressRs.Sql.Tokenizer
import PostgressRs.Sql.TokenStream

/-!
The parsers of selects and of the statements that change rows (`src/sql/parser/select.rs`,
`src/sql/parser/dml.rs`).
-/

namespace PostgressRs.Sql.SelectParser

open PostgressRs.Lib.TokenParser
open PostgressRs.Sql.Ast
open PostgressRs.Sql.ExprParser
open PostgressRs.Sql.Tokenizer
open PostgressRs.Sql.TokenStream

section Tables

/-- After a join some keywords are tested between `AS` and an identifier; none of them
is an identifier. -/
def tableAlias : SqlParser (Option String) :=
  onToken (keyword "AS") (do let aliasName ← expectIdent; pure (some aliasName)) <|
  onSome identText (fun aliasName => pure (some aliasName)) (pure none)

/-- The words that a join begins with. -/
def joinWord : Token → Option String
  | .keyword k =>
      if toUppercase k ∈ ["JOIN", "INNER", "LEFT", "RIGHT", "FULL", "CROSS", "NATURAL",
          "LATERAL"] then
        some (toUppercase k)
      else none
  | _ => none

def joinTypeNamed : String → JoinType
  | "CROSS" => .cross
  | "LEFT" => .left
  | "RIGHT" => .right
  | "FULL" => .full
  | "LATERAL" => .lateral
  | _ => .inner

def outerWord (word : String) : SqlParser Bool :=
  if word ∈ ["LEFT", "RIGHT", "FULL"] then flag (keyword "OUTER") else pure false

/-- Behind the first word of a join. -/
def parseJoinType (word : String) : SqlParser JoinType :=
  if word = "JOIN" then pure .inner
  else do
    let _ ← outerWord word
    expectKeyword "JOIN"
    pure (joinTypeNamed word)

variable (r : Calls)

def parseTableRef : SqlParser (TableRef SelectStatement) :=
  onToken (· = .lParen)
    (ifNext (keyword "SELECT")
      (do
        let query ← r.select
        expect .rParen
        pure (.subquery query))
      (do
        let name ← expectIdent
        expect .rParen
        pure (.table (.single name))))
    (do
      let name ← objectName
      pure (.table name))

def joinConstraint : SqlParser (JoinConstraint Expr) :=
  onToken (keyword "ON") (do let expr ← r.expr; pure (.on expr)) <|
  onToken (keyword "USING")
    (do
      let columns ← parenthesized (commaSeparated expectIdent)
      pure (.usingColumns columns))
    (pure .none)

/-- Behind the first word of a join. -/
def parseJoin (word : String) : SqlParser (Join Expr SelectStatement) := do
  let joinType ← parseJoinType word
  let table ← parseTableRef r
  let aliasName ← tableAlias
  let constraint ← joinConstraint r
  pure ⟨table, aliasName, joinType, constraint⟩

def parseFromClause : SqlParser (FromClause Expr SelectStatement) := do
  let table ← parseTableRef r
  let aliasName ← tableAlias
  iterate
    (fun joins =>
      onSome joinWord (fun word => do let join ← parseJoin r word; pure (.inl (joins ++ [join])))
        (pure (.inr ⟨joins⟩)))
    [⟨table, aliasName, .inner, .none⟩]

end Tables

section Selects

/-- Behind `FOR`. -/
def lockingClause : SqlParser LockingClause :=
  onToken (keyword "UPDATE") (pure .forUpdate) <|
  onToken (keyword "NO")
    (do
      expectKeyword "KEY"
      expectKeyword "UPDATE"
      pure .forNoKeyUpdate) <|
  onToken (keyword "SHARE") (pure .forShare) do
    expectKeyword "KEY"
    expectKeyword "SHARE"
    pure .forKeyShare

def lockingClauses : SqlParser (List LockingClause) :=
  iterate
    (fun locking =>
      onToken (keyword "FOR") (do let clause ← lockingClause; pure (.inl (locking ++ [clause])))
        (pure (.inr locking)))
    []

/-- The operator without and with `ALL`. -/
def setOperators : Token → Option (SetOperator × SetOperator)
  | .keyword k =>
      if toUppercase k = "UNION" then some (.union, .unionAll)
      else if toUppercase k = "INTERSECT" then some (.intersect, .intersectAll)
      else if toUppercase k = "EXCEPT" then some (.except, .exceptAll)
      else none
  | _ => none

variable (r : Calls)

def distinctClause : SqlParser (DistinctClause Expr) :=
  onToken (keyword "DISTINCT")
    (onToken (keyword "ON")
      (do
        let exprs ← parenthesized (commaSeparated r.expr)
        pure (.distinctOn exprs))
      (pure .distinct))
    (pure .all)

def selectItem : SqlParser (SelectItem Expr) :=
  onToken (· = .star)
    (onToken (· = .dot) (do let table ← expectIdent; pure (.tableStar table)) (pure .star))
    (do
      let expr ← r.expr
      onToken (keyword "AS") (do let aliasName ← expectIdent; pure (.exprAs expr aliasName)) <|
        onSome identText (fun aliasName => pure (.exprAs expr aliasName)) (pure (.expr expr)))

def parseSelectList : SqlParser (List (SelectItem Expr)) := commaSeparated (selectItem r)

def parseSelectBody : SqlParser SelectStatement :=
  onToken (· = .lParen) (do let select ← r.select; expect .rParen; pure select) r.select

def setOperations : SqlParser (List (SetOperation SelectStatement)) :=
  iterate
    (fun operations =>
      onSome setOperators
        (fun operators => do
          let all ← flag (keyword "ALL")
          let select ← parseSelectBody r
          pure (.inl (operations ++ [⟨if all then operators.2 else operators.1, select⟩])))
        (pure (.inr operations)))
    []

def limitClause : SqlParser (LimitClause Expr) :=
  onToken (keyword "ALL") (pure .all) (do let expr ← r.expr; pure (.expr expr))

def parseSelect : SqlParser SelectStatement := do
  expectKeyword "SELECT"
  let distinctKind ← distinctClause r
  let selectList ← parseSelectList r
  let fromClause ← optionally (keyword "FROM") (parseFromClause r)
  let whereClause ← optionally (keyword "WHERE") r.expr
  let groupBy ← listBy "GROUP" r.expr
  let having ← optionally (keyword "HAVING") r.expr
  let orderBy ← listBy "ORDER" (orderByItem r)
  let limit ← optionally (keyword "LIMIT") (limitClause r)
  let offset ← optionally (keyword "OFFSET") r.expr
  let locking ← lockingClauses
  let operations ← setOperations r
  pure (.mk distinctKind selectList fromClause whereClause groupBy having orderBy limit offset
    locking operations)

end Selects

section Calls

/-- The functions of the parser, for calls as deep as the fuel. -/
def calls : Nat → Calls
  | 0 =>
      { expr := fun _ => .unfinished
        bitwiseOr := fun _ => .unfinished
        select := fun _ => .unfinished
        dataType := fun _ => .unfinished }
  | fuel + 1 =>
      { expr := parseExpr (calls fuel)
        bitwiseOr := parseBitwiseOr (calls fuel)
        select := parseSelect (calls fuel)
        dataType := parseDataType (calls fuel) }

end Calls

section Dml

variable (r : Calls)

def setClause : SqlParser (SetClause Expr) := do
  let column ← expectIdent
  expect .eq
  let value ← r.expr
  pure ⟨column, value⟩

def returningClause : SqlParser (List (SelectItem Expr)) :=
  onToken (keyword "RETURNING") (parseSelectList r) (pure [])

def insertSource : SqlParser (InsertSource Expr SelectStatement) :=
  onToken (keyword "VALUES")
    (do
      let rows ← commaSeparated (parenthesized (commaSeparated r.expr))
      pure (.values rows)) <|
  ifNext (keyword "SELECT") (do let select ← r.select; pure (.select select))
    (failWith "expected VALUES or SELECT after INSERT INTO")

/-- Behind `ON`. -/
def onConflict : SqlParser (OnConflict Expr) := do
  expectKeyword "CONFLICT"
  let target ← columnList
  expectKeyword "DO"
  onToken (keyword "NOTHING") (pure .doNothing) <|
    onToken (keyword "UPDATE")
      (do
        expectKeyword "SET"
        let setClauses ← commaSeparated (setClause r)
        let whereClause ← optionally (keyword "WHERE") r.expr
        pure (.doUpdate target whereClause setClauses))
      (failWith "expected NOTHING or UPDATE after DO")

def parseInsert : SqlParser (InsertStatement Expr SelectStatement) := do
  expectKeyword "INSERT"
  expectKeyword "INTO"
  let table ← objectName
  let columns ← columnList
  let source ← insertSource r
  let conflict ← optionally (keyword "ON") (onConflict r)
  let returning ← returningClause r
  pure ⟨table, columns, source, conflict, returning⟩

def parseUpdate : SqlParser (UpdateStatement Expr SelectStatement) := do
  expectKeyword "UPDATE"
  let table ← objectName
  let fromClause ← optionally (keyword "FROM") (parseFromClause r)
  expectKeyword "SET"
  let setClauses ← commaSeparated (setClause r)
  let whereClause ← optionally (keyword "WHERE") r.expr
  let returning ← returningClause r
  pure ⟨table, fromClause, setClauses, whereClause, returning⟩

def parseDelete : SqlParser (DeleteStatement Expr SelectStatement) := do
  expectKeyword "DELETE"
  expectKeyword "FROM"
  let table ← objectName
  let usingClause ← optionally (keyword "USING") (parseFromClause r)
  let whereClause ← optionally (keyword "WHERE") r.expr
  let returning ← returningClause r
  pure ⟨table, usingClause, whereClause, returning⟩

end Dml

end PostgressRs.Sql.SelectParser
