import PostgressRs.Lib.Effects
import PostgressRs.RelationCatalog
import PostgressRs.Server.Queries

/-!
`handle_query` and `handle_statement` of `src/server/query.rs` as sequences of their
effects on what the connections share and on the client.  A heap operation holds
the WAL's lock from its first to its last step and is one effect.  `current_xid` is
passed in and returned.
-/

namespace PostgressRs.Server.QueryHandlers

open PostgressRs.BufferCache.SharedCache
open PostgressRs.Executor.HeapAccess
open PostgressRs.Lib.ByteBuffer
open PostgressRs.Lib.Effects
open PostgressRs.Lib.Effects.Program
open PostgressRs.Lib.Procedure hiding ofExcept orPanic
open PostgressRs.RelationCatalog
open PostgressRs.Protocol.Backend
open PostgressRs.Server.Queries
open PostgressRs.Storage.PageStore
open PostgressRs.Txn.TransactionTable
open PostgressRs.Types
open PostgressRs.Wal.LogRecord
open PostgressRs.Wal.WriteAheadLog

inductive ServerOp (κ : Type) where
  | begin (isolation : IsolationLevel)
  | commit (xid : TransactionId)
  | rollback (xid : TransactionId)
  | append (record : WALRecord)
  | flush
  | getSnapshotForStatement (xid : TransactionId)
  | allocateOid
  | listRelations
  | createRelation (rel : Relation)
  | deleteRelation (relOid : Oid)
  | registerIndex (info : IndexInfo)
  | getRelationState (relOid : Oid)
  | executeSelect (select : SelectStatement κ) (snapshot : Snapshot)
  | heapScan (relOid : Oid)
  | slowScan (relOid : Oid) (filter : Option Filter)
  | tupleInsert (relOid : Oid) (values : List Bytes)
  | tupleUpdate (relOid : Oid) (columnIdx : Nat) (newValue : Bytes) (filter : Option Filter)
  | tupleDelete (relOid : Oid) (filter : Option Filter)
  | send (messages : List BackendMessage)

abbrev serverEffects (κ : Type) : Signature where
  Op := ServerOp κ
  Answer
    | .begin _ => TransactionId
    | .commit _ => Except String Unit
    | .rollback _ => Except String Unit
    | .append _ => Except String Nat
    | .flush => Except String Unit
    | .getSnapshotForStatement _ => Snapshot
    | .allocateOid => Oid
    | .listRelations => List Relation
    | .createRelation _ => Oid
    | .deleteRelation _ => Unit
    | .registerIndex _ => Unit
    | .getRelationState _ => Except String Relation
    | .executeSelect _ _ => Except String SelectResult
    | .heapScan _ => Except String (List Row)
    | .slowScan _ _ => Except String (List Row)
    | .tupleInsert _ _ => Except String Unit
    | .tupleUpdate _ _ _ _ => Except String Nat
    | .tupleDelete _ _ => Except String Nat
    | .send _ => Unit

section Machine

/-- What the connections share. -/
structure Shared (σ : Type) where
  catalog : Catalog
  db : Database σ
  txnMgr : TransactionManager

variable {σ κ : Type}

def Shared.schema (self : Shared σ) : Schema σ := ⟨self.catalog, self.db.cache⟩

def Shared.setSchema (self : Shared σ) (schema : Schema σ) : Shared σ :=
  { self with catalog := schema.catalog, db := { self.db with cache := schema.cache } }

/-- `execute_select_with_snapshot`, which works on the catalog and the cache. -/
abbrev SelectExecutor (κ σ : Type) :=
  SelectStatement κ → Snapshot → Proc (Schema σ) SelectResult

def onDb {α : Type} : Proc (Database σ) α → Proc (Shared σ) α :=
  within Shared.db fun s db => { s with db := db }

def onSchema {α : Type} : Proc (Schema σ) α → Proc (Shared σ) α :=
  within Shared.schema Shared.setSchema

variable [Bincode] [StorageTrait σ]

def serverMachine (executor : SelectExecutor κ σ) : Machine (serverEffects κ) (Shared σ)
  | .begin isolation, s =>
      some ((s.txnMgr.begin isolation).1, { s with txnMgr := (s.txnMgr.begin isolation).2 })
  | .commit xid, s => some ((s.txnMgr.commit xid).1, { s with txnMgr := (s.txnMgr.commit xid).2 })
  | .rollback xid, s =>
      some ((s.txnMgr.rollback xid).1, { s with txnMgr := (s.txnMgr.rollback xid).2 })
  | .append record, s => answered (onDb (onWal (append record))) s
  | .flush, s => answered (onDb (onWal flush)) s
  | .getSnapshotForStatement xid, s => some (s.txnMgr.getSnapshotForStatement xid, s)
  | .allocateOid, s =>
      some ((allocateOid s.catalog).1, { s with catalog := (allocateOid s.catalog).2 })
  | .listRelations, s => some (listRelations s.catalog, s)
  | .createRelation rel, s =>
      some ((createRelation rel s.schema).1, s.setSchema (createRelation rel s.schema).2)
  | .deleteRelation relOid, s => some ((), s.setSchema (deleteRelation relOid s.schema))
  | .registerIndex info, s => some ((), { s with catalog := registerIndex s.catalog info })
  | .getRelationState relOid, s => answered (onDb (onCache (getRelationState relOid))) s
  | .executeSelect select snapshot, s => answered (onSchema (executor select snapshot)) s
  | .heapScan relOid, s => answered (onDb (heapScan relOid)) s
  | .slowScan relOid filter, s => answered (onDb (slowScan relOid filter)) s
  | .tupleInsert relOid values, s => answered (onDb (tupleInsert relOid values)) s
  | .tupleUpdate relOid columnIdx newValue filter, s =>
      answered (onDb (tupleUpdate relOid columnIdx newValue filter)) s
  | .tupleDelete relOid filter, s => answered (onDb (tupleDelete relOid filter)) s
  | .send _, s => some ((), s)

end Machine

section Handlers

variable {ε κ : Type} [TextFormat ε]

abbrev ServerProgram (κ : Type) := Program (serverEffects κ)

def effect (op : ServerOp κ) : ServerProgram κ ((serverEffects κ).Answer op) :=
  @call (serverEffects κ) op

def send (messages : List BackendMessage) : ServerProgram κ Unit := effect (.send messages)

def sendError (msg : String) : ServerProgram κ Unit := do
  send [.errorResponse [{ fieldType := 77, value := msg }]]
  send [.readyForQuery .idle]

/-- The transaction of a statement, and whether it was begun for the statement. -/
def openTransaction (currentXid : Option TransactionId) :
    ServerProgram κ (TransactionId × Bool) :=
  match currentXid with
  | some xid => pure (xid, false)
  | none => do
      let xid ← effect (.begin .readCommitted)
      let _ ← effect (.append (.begin xid.val.toUInt64))
      pure (xid, true)

/-- The end of a statement that may have begun a transaction: its `current_xid`
from then on. -/
def closeTransaction (xid : TransactionId) (wasImplicitTxn : Bool) :
    ServerProgram κ (Option TransactionId) :=
  if wasImplicitTxn then do
    let _ ← effect (.append (.commit xid.val.toUInt64))
    let _ ← effect (.commit xid)
    let _ ← effect .flush
    pure none
  else pure (some xid)

/-- The frame that the handlers of `SELECT`, `INSERT`, `UPDATE` and `DELETE` share. -/
def inTransaction (currentXid : Option TransactionId)
    (work : TransactionId → ServerProgram κ Unit) : ServerProgram κ (Option TransactionId) := do
  let (xid, wasImplicitTxn) ← openTransaction currentXid
  work xid
  let currentXid ← closeTransaction xid wasImplicitTxn
  send [.readyForQuery (txStatus currentXid)]
  pure currentXid

/-- The reply to an executed operation. -/
def reply {α : Type} (result : Except String α) (messages : α → List BackendMessage) :
    ServerProgram κ Unit :=
  match result with
  | .ok a => send (messages a)
  | .error e => sendError e

def noRelation (name : String) : String := "relation \"" ++ name ++ "\" does not exist"

section Utils

def executeCreateTable (name : String) (columns : List (String × Oid)) : ServerProgram κ Unit := do
  let rel : Relation :=
    { relOid := ⟨0⟩
      name := name
      tupleDesc :=
        { fields := columns.zipIdx.map fun entry =>
            { name := entry.1.1
              typeOid := entry.1.2
              attnum := Int16.ofNat entry.2
              typmod := -1 } }
      pages := [] }
  let _ ← effect (.createRelation rel)
  pure ()

def executeDropTable (name : String) : ServerProgram κ (Except String Unit) := do
  let rels ← effect .listRelations
  match rels.find? fun rel => rel.name = name with
  | some rel => do
      effect (.deleteRelation rel.relOid)
      pure (.ok ())
  | none => pure (.error (noRelation name))

variable (ε) in
def executeCreateIndex (table column : String) : ServerProgram κ (Except String Unit) := do
  let rels ← effect .listRelations
  match rels.find? fun rel => rel.name = table with
  | some rel => do
      let rootPage ← effect .allocateOid
      let indexOid ← effect .allocateOid
      effect (.registerIndex
        { indexOid := indexOid
          relOid := rel.relOid
          columnName := toUppercase ε column
          rootPage := ⟨rootPage.val⟩ })
      pure (.ok ())
  | none => pure (.error (noRelation table))

def sendRows (relOid : Oid) (rows : List Row) : ServerProgram κ (Except String Unit) := do
  if rows.isEmpty then
    send [.rowDescriptionEmpty, .commandComplete "SELECT 0"]
    pure (.ok ())
  else
    match ← effect (.getRelationState relOid) with
    | .ok rel => do
        send (rowMessages rel rows)
        pure (.ok ())
    | .error e => pure (.error e)

def executeSeqScan (relOid : Oid) : ServerProgram κ (Except String Unit) := do
  match ← effect (.heapScan relOid) with
  | .ok rows => sendRows relOid rows
  | .error e => pure (.error e)

def executeSlowScan (relOid : Oid) (filterStr : String) : ServerProgram κ (Except String Unit) :=
  match parseFilter filterStr with
  | .ok filter => do
      match ← effect (.slowScan relOid (some filter)) with
      | .ok rows => sendRows relOid rows
      | .error e => pure (.error e)
  | .error e => pure (.error e)

end Utils

section Dml

/-- The relation a statement names, whatever the case of the letters. -/
def findRelation (ε : Type) [TextFormat ε] (table : ObjectName) (rels : List Relation) :
    Option Relation :=
  rels.find? fun rel => toUppercase ε rel.name = toUppercase ε table.join

def insertWork (relOid : Oid) (values : List Bytes) : ServerProgram κ Unit := do
  let result ← effect (.tupleInsert relOid values)
  reply result fun _ => [.commandComplete "INSERT 1"]

def updateWork (relOid : Oid) (value : Bytes) (filter : Option Filter) : ServerProgram κ Unit := do
  let result ← effect (.tupleUpdate relOid 0 value filter)
  reply result fun updated => [.commandComplete s!"UPDATE {updated}"]

def deleteWork (relOid : Oid) (filter : Option Filter) : ServerProgram κ Unit := do
  let result ← effect (.tupleDelete relOid filter)
  reply result fun deleted => [.commandComplete s!"DELETE {deleted}"]

/-- A temporary relation for each common table expression. -/
def registerCtes : List String → ServerProgram κ (List Oid)
  | [] => pure []
  | name :: names => do
      let cteOid ← effect .allocateOid
      let _ ← effect (.createRelation
        { relOid := cteOid, name := name, tupleDesc := { fields := [] }, pages := [] })
      let cteOids ← registerCtes names
      pure (cteOid :: cteOids)

def deleteCtes : List Oid → ServerProgram κ Unit
  | [] => pure ()
  | cteOid :: cteOids => do
      effect (.deleteRelation cteOid)
      deleteCtes cteOids

def selectWork (select : SelectStatement κ) (xid : TransactionId) : ServerProgram κ Unit := do
  let snapshot ← effect (.getSnapshotForStatement xid)
  let cteOids ← registerCtes select.ctes
  let result ← effect (.executeSelect select snapshot)
  reply result buildSelectMessages
  deleteCtes cteOids

def insertStatementWork (insert : InsertStatement ε κ) : ServerProgram κ Unit := do
  let rels ← effect .listRelations
  match findRelation ε insert.table rels with
  | some rel =>
      match insert.source with
      | .values rows =>
          match rows.head? with
          | some row => insertWork rel.relOid (row.map exprBytes)
          | none => pure ()
      | .select _ => sendError "INSERT...SELECT not yet supported"
  | none => sendError (noRelation insert.table.join)

/-- The column of the first `SET` clause and the `WHERE` clause are not looked at. -/
def updateStatementWork (update : UpdateStatement ε) : ServerProgram κ Unit := do
  let rels ← effect .listRelations
  match findRelation ε update.table rels with
  | some rel =>
      match update.setClauses.head? with
      | some setClause => updateWork rel.relOid (exprBytes setClause.value) none
      | none => pure ()
  | none => sendError (noRelation update.table.join)

/-- The `WHERE` clause is not looked at. -/
def deleteStatementWork (delete : DeleteStatement ε) : ServerProgram κ Unit := do
  let rels ← effect .listRelations
  match findRelation ε delete.table rels with
  | some rel => deleteWork rel.relOid none
  | none => sendError (noRelation delete.table.join)

/-- `UPDATE` and `DELETE` of the simple parser: the filter, if there is one, is
parsed first. -/
def filteredWork (whereClause : Option String) (work : Option Filter → ServerProgram κ Unit) :
    ServerProgram κ Unit :=
  match parseWhere whereClause with
  | .ok filter => work filter
  | .error e => sendError e

/-- The planner is given no indexes and always answers with a sequential scan. -/
def executeScan (table : Oid) (whereClause : Option String) :
    ServerProgram κ (Except String Unit) :=
  match whereClause with
  | none => executeSeqScan table
  | some filter => executeSlowScan table filter

/-- `SELECT` of the simple parser. -/
def scanWork (table : Oid) (whereClause : Option String) : ServerProgram κ Unit := do
  let result ← executeScan table whereClause
  match result with
  | .ok _ => pure ()
  | .error e => sendError e

end Dml

section Ddl

/-- The reply of a handler that works outside of transactions. -/
def complete (result : Except String Unit) (tag : String) (status : TransactionStatus)
    (currentXid : Option TransactionId) : ServerProgram κ (Option TransactionId) := do
  match result with
  | .ok _ => send [.commandComplete tag, .readyForQuery status]
  | .error e => sendError e
  pure currentXid

def typeOid : DataType → Oid
  | .int => ⟨23⟩
  | .bigInt => ⟨20⟩
  | .smallInt => ⟨21⟩
  | .text => ⟨25⟩
  | .varchar _ => ⟨1043⟩
  | .boolean => ⟨16⟩
  | .other _ => ⟨0⟩

def handleCreateTableStatement (create : CreateTableStatement)
    (currentXid : Option TransactionId) : ServerProgram κ (Option TransactionId) := do
  let name := create.table.join
  executeCreateTable name (create.columns.map fun col => (col.name, typeOid col.dataType))
  complete (.ok ()) ("CREATE TABLE " ++ name) .idle currentXid

def indexColumn (create : CreateIndexStatement ε) : String :=
  match create.columns.head? with
  | some (.identifier id) => id
  | _ => "unknown"

def handleCreateIndexStatement (create : CreateIndexStatement ε)
    (currentXid : Option TransactionId) : ServerProgram κ (Option TransactionId) := do
  let result ← executeCreateIndex ε create.table.join (indexColumn create)
  complete result ("CREATE INDEX " ++ create.name.join) .idle currentXid

def handleDropTableStatement (drop : DropTableStatement) (currentXid : Option TransactionId) :
    ServerProgram κ (Option TransactionId) := do
  let result ← executeDropTable drop.table.join
  complete result ("DROP TABLE " ++ drop.table.join) .idle currentXid

def notYetSupported (name : String) (currentXid : Option TransactionId) :
    ServerProgram κ (Option TransactionId) := do
  sendError (name ++ " not yet supported")
  pure currentXid

end Ddl

section Transactions

def beginTransaction (isolation : IsolationLevel) : ServerProgram κ (Option TransactionId) := do
  let xid ← effect (.begin isolation)
  send [.commandComplete "BEGIN", .readyForQuery .inTransaction]
  pure (some xid)

def handleBeginStatement (begin : BeginStatement) : ServerProgram κ (Option TransactionId) :=
  beginTransaction (begin.isolationLevel.getD .readCommitted)

def handleCommitStatement (currentXid : Option TransactionId) :
    ServerProgram κ (Option TransactionId) := do
  match currentXid with
  | some xid => do
      let _ ← effect (.commit xid)
      let _ ← effect (.append (.commit xid.val.toUInt64))
      let _ ← effect .flush
      pure ()
  | none => pure ()
  send [.commandComplete "COMMIT", .readyForQuery .idle]
  pure none

def handleRollbackStatement (currentXid : Option TransactionId) :
    ServerProgram κ (Option TransactionId) := do
  match currentXid with
  | some xid => do
      let _ ← effect (.rollback xid)
      let _ ← effect (.append (.abort xid.val.toUInt64))
      let _ ← effect .flush
      pure ()
  | none => pure ()
  send [.commandComplete "ROLLBACK", .readyForQuery .idle]
  pure none

variable (ε) in
/-- The timeouts are set on a copy of the transaction. -/
def handleSetStatement (set : SetStatement) (currentXid : Option TransactionId) :
    ServerProgram κ (Option TransactionId) := do
  let name := toLowercase ε set.name
  if name = "statement_timeout" ∨ name = "lock_timeout" then
    match currentXid with
    | some _ => send [.commandComplete "SET", .readyForQuery .inTransaction]
    | none => send [.commandComplete "SET", .readyForQuery .idle]
  else send [.commandComplete "SET", .readyForQuery (txStatus currentXid)]
  pure currentXid

end Transactions

def handleStatement (stmt : Statement ε κ) (currentXid : Option TransactionId) :
    ServerProgram κ (Option TransactionId) :=
  match stmt with
  | .select select => inTransaction currentXid (selectWork select)
  | .insert insert => inTransaction currentXid fun _ => insertStatementWork insert
  | .update update => inTransaction currentXid fun _ => updateStatementWork update
  | .delete delete => inTransaction currentXid fun _ => deleteStatementWork delete
  | .createTable create => handleCreateTableStatement create currentXid
  | .createIndex create => handleCreateIndexStatement create currentXid
  | .createView => notYetSupported "CREATE VIEW" currentXid
  | .alterTable => notYetSupported "ALTER TABLE" currentXid
  | .dropTable drop => handleDropTableStatement drop currentXid
  | .dropIndex => notYetSupported "DROP INDEX" currentXid
  | .begin begin => handleBeginStatement begin
  | .commit => handleCommitStatement currentXid
  | .rollback => handleRollbackStatement currentXid
  | .explain _ => notYetSupported "EXPLAIN" currentXid
  | .createSequence => notYetSupported "CREATE SEQUENCE" currentXid
  | .createType => notYetSupported "CREATE TYPE" currentXid
  | .createMaterializedView => notYetSupported "CREATE MATERIALIZED VIEW" currentXid
  | .createSchema => notYetSupported "CREATE SCHEMA" currentXid
  | .set set => handleSetStatement ε set currentXid
  | .merge => notYetSupported "MERGE" currentXid

def handleQuery (query : Query ε κ) (currentXid : Option TransactionId) :
    ServerProgram κ (Option TransactionId) :=
  match query with
  | .createTable name columns => do
      executeCreateTable name columns
      complete (.ok ()) ("CREATE TABLE " ++ name) (txStatus currentXid) currentXid
  | .dropTable name => do
      let result ← executeDropTable name
      complete result ("DROP TABLE " ++ name) (txStatus currentXid) currentXid
  | .createIndex name table column => do
      let result ← executeCreateIndex ε table column
      complete result ("CREATE INDEX " ++ name) (txStatus currentXid) currentXid
  | .begin _ => beginTransaction .readCommitted
  | .commit => handleCommitStatement currentXid
  | .rollback => handleRollbackStatement currentXid
  | .insert table values => inTransaction currentXid fun _ => insertWork table values
  | .update table _ value whereClause =>
      inTransaction currentXid fun _ => filteredWork whereClause (updateWork table value)
  | .delete table whereClause =>
      inTransaction currentXid fun _ => filteredWork whereClause (deleteWork table)
  | .select table whereClause _ => inTransaction currentXid fun _ => scanWork table whereClause
  | .statement stmt => handleStatement stmt currentXid

/-- A `Query` message, for a connection with the given buffer. -/
def handleQueryMessage (parsers : Parsers ε κ) (sql : String) (buffer : List Char)
    (currentXid : Option TransactionId) :
    ServerProgram κ (List Char × Option TransactionId) :=
  match feed parsers buffer sql.toList with
  | (some query, buffer) => do
      let currentXid ← handleQuery query currentXid
      pure (buffer, currentXid)
  | (none, buffer) => pure (buffer, currentXid)

end Handlers

end PostgressRs.Server.QueryHandlers
