/-!
The syntax trees of SQL (`src/sql/ast.rs`).  Kinds of trees that the parser never
builds are left out.
-/

namespace PostgressRs.Sql.Ast

section Plain

inductive SetOperator where
  | union
  | unionAll
  | intersect
  | intersectAll
  | except
  | exceptAll
deriving DecidableEq

inductive LockingClause where
  | forUpdate
  | forNoKeyUpdate
  | forShare
  | forKeyShare
deriving DecidableEq

inductive ReferentialAction where
  | restrict
  | cascade
  | setNull
  | setDefault
  | noAction
deriving DecidableEq

inductive SetValue where
  | identifier (s : String)
  | string (s : String)
  | number (n : String)
deriving DecidableEq

structure SetStatement where
  name : String
  values : List SetValue
deriving DecidableEq

inductive IsolationLevel where
  | serializable
  | repeatableRead
  | readCommitted
  | readUncommitted
deriving DecidableEq

structure BeginStatement where
  isolationLevel : Option IsolationLevel
  readOnly : Bool
  deferrable : Bool
deriving DecidableEq

inductive JoinType where
  | inner
  | left
  | right
  | full
  | cross
  | lateral
deriving DecidableEq

inductive SortDirection where
  | asc
  | desc
  | default
deriving DecidableEq

inductive NullsOrder where
  | first
  | last
  | default
deriving DecidableEq

structure ObjectName where
  parts : List String
deriving DecidableEq

def ObjectName.single (name : String) : ObjectName := ⟨[name]⟩

inductive DataType where
  | int
  | bigInt
  | smallInt
  | float
  | double
  | numeric (precision scale : Nat)
  | varchar (length : Nat)
  | char (length : Nat)
  | text
  | boolean
  | date
  | time
  | timeTz
  | timestamp
  | timestampTz
  | interval
  | json
  | jsonB
  | uuid
  | serial
  | bigSerial
  | smallSerial
  | money
  | inet
  | cidr
  | macAddr
  | bit (length : Nat)
  | bitVarying (length : Nat)
  | tsVector
  | tsQuery
  | array (element : DataType)
  | custom (parts : List String)
deriving DecidableEq

inductive Literal where
  | number (n : String)
  | string (s : String)
  | bool (b : Bool)
  | null
deriving DecidableEq

inductive DatePart where
  | year
  | month
  | day
  | hour
  | minute
  | second
  | millisecond
  | microsecond
  | dow
  | doy
  | isoDow
  | week
  | quarter
  | epoch
  | isoYear
  | timezone
  | timezoneHour
  | timezoneMinute
deriving DecidableEq

inductive BinaryOperator where
  | plus
  | minus
  | multiply
  | divide
  | modulo
  | equals
  | notEquals
  | lessThan
  | greaterThan
  | lessOrEqual
  | greaterOrEqual
  | and
  | or
  | bitwiseAnd
  | bitwiseOr
  | bitwiseXor
  | bitwiseShiftLeft
  | bitwiseShiftRight
  | like
  | iLike
deriving DecidableEq

inductive UnaryOperator where
  | plus
  | minus
  | not
  | bitwiseNot
deriving DecidableEq

structure CreateSequenceStatement where
  name : ObjectName
  ifNotExists : Bool
  dataType : Option DataType
  increment : Option Int
  minValue : Option Int
  maxValue : Option Int
  start : Option Int
  cache : Option Int
  cycle : Bool
  ownedBy : Option ObjectName
deriving DecidableEq

structure CompositeAttribute where
  name : String
  dataType : DataType
  collation : Option ObjectName
deriving DecidableEq

inductive TypeDefinition where
  | composite (attributes : List CompositeAttribute)
  | enum (values : List String)
  | range (subtype : DataType)
deriving DecidableEq

structure CreateTypeStatement where
  name : ObjectName
  definition : TypeDefinition
deriving DecidableEq

structure CreateSchemaStatement where
  name : Option String
  ifNotExists : Bool
  authorization : Option String
deriving DecidableEq

structure DropTableStatement where
  table : ObjectName
  ifExists : Bool
  cascade : Bool
deriving DecidableEq

structure DropIndexStatement where
  name : ObjectName
  ifExists : Bool
  cascade : Bool
deriving DecidableEq

end Plain

section Clauses

-- The expressions, the selects and the statements inside of other trees.
variable (E Q S : Type)

structure OrderByItem where
  expr : E
  direction : SortDirection
  nulls : NullsOrder

inductive FrameBound where
  | currentRow
  | preceding (expr : E)
  | following (expr : E)
  | unboundedPreceding
  | unboundedFollowing

structure FrameClause where
  start : FrameBound E
  stop : Option (FrameBound E)

structure WindowSpec where
  partitionBy : List E
  orderBy : List (OrderByItem E)
  frame : Option (FrameClause E)

inductive FunctionArg where
  | expr (expr : E)
  | star

structure FunctionCall where
  name : ObjectName
  args : List (FunctionArg E)
  filter : Option E
  overClause : Option (WindowSpec E)

structure WhenClause where
  condition : E
  result : E

inductive SelectItem where
  | expr (expr : E)
  | exprAs (expr : E) (aliasName : String)
  | star
  | tableStar (table : String)

inductive TableRef where
  | table (name : ObjectName)
  | subquery (query : Q)

inductive JoinConstraint where
  | on (expr : E)
  | usingColumns (columns : List String)
  | none

structure Join where
  table : TableRef Q
  aliasName : Option String
  joinType : JoinType
  constraint : JoinConstraint E

structure FromClause where
  joins : List (Join E Q)

inductive LimitClause where
  | all
  | expr (expr : E)

inductive DistinctClause where
  | all
  | distinct
  | distinctOn (exprs : List E)

structure SetOperation where
  operator : SetOperator
  select : Q

structure CommonTableExpr where
  name : String
  columns : Option (List String)
  materialized : Option Bool
  query : S

structure WithClause where
  recursive : Bool
  ctes : List (CommonTableExpr S)

structure SetClause where
  column : String
  value : E

inductive OnConflict where
  | doNothing
  | doUpdate (targetColumns : Option (List String)) (whereClause : Option E)
      (setClauses : List (SetClause E))

inductive InsertSource where
  | values (rows : List (List E))
  | select (select : Q)

structure InsertStatement where
  table : ObjectName
  columns : Option (List String)
  source : InsertSource E Q
  onConflict : Option (OnConflict E)
  returning : List (SelectItem E)

structure UpdateStatement where
  table : ObjectName
  fromClause : Option (FromClause E Q)
  setClauses : List (SetClause E)
  whereClause : Option E
  returning : List (SelectItem E)

structure DeleteStatement where
  table : ObjectName
  usingClause : Option (FromClause E Q)
  whereClause : Option E
  returning : List (SelectItem E)

inductive ColumnConstraint where
  | notNull
  | null
  | default (expr : E)
  | primaryKey
  | unique
  | references (table : ObjectName) (column : String) (onDelete onUpdate : Option ReferentialAction)
  | check (expr : E)

structure ColumnDef where
  name : String
  dataType : DataType
  constraints : List (ColumnConstraint E)

inductive TableConstraint where
  | primaryKey (columns : List String)
  | unique (columns : List String)
  | foreignKey (columns : List String) (refTable : ObjectName) (refColumns : List String)
      (onDelete onUpdate : Option ReferentialAction)
  | check (expr : E)

structure CreateTableStatement where
  table : ObjectName
  columns : List (ColumnDef E)
  constraints : List (TableConstraint E)
  ifNotExists : Bool

structure IndexColumn where
  expr : E
  direction : SortDirection
  nulls : NullsOrder

structure CreateIndexStatement where
  name : ObjectName
  table : ObjectName
  columns : List (IndexColumn E)
  unique : Bool
  ifNotExists : Bool

/-- Also `CreateMaterializedViewStatement`. -/
structure CreateViewStatement where
  name : ObjectName
  columns : Option (List String)
  query : Q
  orReplace : Bool

inductive AlterColumnAction where
  | setDataType (dataType : DataType)
  | setDefault (expr : E)
  | dropDefault
  | setNotNull
  | dropNotNull

inductive AlterTableAction where
  | addColumn (column : ColumnDef E)
  | dropColumn (name : String) (ifExists cascade : Bool)
  | renameColumn (oldName newName : String)
  | alterColumn (name : String) (action : AlterColumnAction E)
  | renameTable (newName : ObjectName)

structure AlterTableStatement where
  table : ObjectName
  action : AlterTableAction E

inductive MergeSource where
  | table (name : ObjectName)
  | subquery (query : Q)

inductive MergeAction where
  | update (setClauses : List (SetClause E))
  | delete
  | doNothing
  | insert (columns : Option (List String)) (values : List (List E))

inductive MergeClause where
  | whenMatched (condition : Option E) (action : MergeAction E)
  | whenNotMatched (condition : Option E) (action : MergeAction E)

structure MergeStatement where
  target : ObjectName
  source : MergeSource Q
  joinCondition : E
  clauses : List (MergeClause E)

end Clauses

mutual

inductive Expr where
  | identifier (name : String)
  | qualifiedIdentifier (table column : String)
  | literal (lit : Literal)
  | parameter (n : Nat)
  | isNull (expr : Expr)
  | isNotNull (expr : Expr)
  | inList (expr : Expr) (negated : Bool) (list : List Expr)
  | inSubquery (expr : Expr) (negated : Bool) (subquery : SelectStatement)
  | between (expr : Expr) (negated : Bool) (low high : Expr)
  | binaryOp (left : Expr) (op : BinaryOperator) (right : Expr)
  | unaryOp (op : UnaryOperator) (expr : Expr)
  | nestedSelect (select : SelectStatement)
  | function (call : FunctionCall Expr)
  | array (elements : List Expr)
  | typeCast (expr : Expr) (dataType : DataType)
  | case (operand : Option Expr) (whenClauses : List (WhenClause Expr))
      (elseClause : Option Expr)
  | anyComparison (op : BinaryOperator) (left right : Expr)
  | someComparison (op : BinaryOperator) (left right : Expr)
  | atTimeZone (expr zone : Expr)
  | extract (field : DatePart) (source : Expr)
  | dateTrunc (field : DatePart) (source : Expr) (zone : Option Expr)

inductive SelectStatement where
  | mk (distinctClause : DistinctClause Expr) (selectList : List (SelectItem Expr))
      (fromClause : Option (FromClause Expr SelectStatement)) (whereClause : Option Expr)
      (groupBy : List Expr) (having : Option Expr) (orderBy : List (OrderByItem Expr))
      (limit : Option (LimitClause Expr)) (offset : Option Expr) (locking : List LockingClause)
      (setOperations : List (SetOperation SelectStatement))

end

/-- The `with` of a select is `None` except in a statement, so it is kept there. -/
inductive Statement where
  | select (withClause : Option (WithClause Statement)) (select : SelectStatement)
  | insert (insert : InsertStatement Expr SelectStatement)
  | update (update : UpdateStatement Expr SelectStatement)
  | delete (delete : DeleteStatement Expr SelectStatement)
  | createTable (create : CreateTableStatement Expr)
  | createIndex (create : CreateIndexStatement Expr)
  | createView (create : CreateViewStatement SelectStatement)
  | createMaterializedView (create : CreateViewStatement SelectStatement)
  | createSequence (create : CreateSequenceStatement)
  | createType (create : CreateTypeStatement)
  | createSchema (create : CreateSchemaStatement)
  | alterTable (alter : AlterTableStatement Expr)
  | dropTable (drop : DropTableStatement)
  | dropIndex (drop : DropIndexStatement)
  | merge (merge : MergeStatement Expr SelectStatement)
  | set (set : SetStatement)
  | begin (begin : BeginStatement)
  | commit
  | rollback
  | explain (inner : Statement)

end PostgressRs.Sql.Ast
