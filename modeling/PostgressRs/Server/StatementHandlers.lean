import PostgressRs.Executor.HeapAccess
import Mathlib.Logic.Function.Basic

/-!
The statement handlers of `src/server/query.rs` for one table.  A statement runs
to its end before the next one starts.  The select list and the clauses of a
`SELECT` work on the scanned rows and are left out.
-/

namespace PostgressRs.Server.StatementHandlers

open PostgressRs.Executor.HeapAccess
open PostgressRs.Lib.ByteBuffer
open PostgressRs.Lib.Procedure
open PostgressRs.Storage.PageStore
open PostgressRs.Txn.TransactionTable
open PostgressRs.Types
open PostgressRs.Wal.LogRecord
open PostgressRs.Wal.WriteAheadLog

/-- What the connections share, and each connection's `current_xid`. -/
structure Server (σ : Type) where
  db : Database σ
  txnMgr : TransactionManager
  currentXid : Nat → Option TransactionId

/-- An `INSERT` uses its first row of values only; an `UPDATE` always sets column
0, and neither it nor a `DELETE` looks at its `WHERE` clause. -/
inductive Statement where
  | begin (isolationLevel : Option IsolationLevel)
  | insert (values : List Bytes)
  | update (value : Bytes)
  | delete
  | select
  | commit
  | rollback
deriving DecidableEq

/-- What the client is sent. -/
inductive Response where
  | rows (rows : List Row)
  | commandComplete (tag : String)
  | error (message : String)

/-- The reply to an executed statement; an `Err` goes through `send_error`. -/
def reply {α : Type} (answer : α → Response) : Except String α → Response
  | .ok a => answer a
  | .error e => .error e

section

variable {σ : Type}

def beginTransaction (isolation : IsolationLevel) : Proc (Server σ) TransactionId := fun s =>
  .ok (s.txnMgr.begin isolation).1 { s with txnMgr := (s.txnMgr.begin isolation).2 }

/-- `let _ = txn_mgr.commit(xid)`; `rollback` does the same to the table. -/
def endTransaction (xid : TransactionId) : Proc (Server σ) Unit :=
  modify fun s => { s with txnMgr := (s.txnMgr.finish xid).2 }

def setCurrentXid (connection : Nat) (xid : Option TransactionId) : Proc (Server σ) Unit :=
  modify fun s => { s with currentXid := Function.update s.currentXid connection xid }

def onDb {α : Type} : Proc (Database σ) α → Proc (Server σ) α :=
  within Server.db fun s db => { s with db := db }

/-- `let _ = wal.append(record)`. -/
def logRecord [Bincode] (record : WALRecord) : Proc (Server σ) Unit := do
  let _ ← attempt (onDb (onWal (append record)))
  pure ()

def flushLog : Proc (Server σ) Unit := onDb (onWal flush)

variable [Bincode]

/-- The transaction a statement runs in, and whether it was begun for it. -/
def openTransaction (connection : Nat) : Proc (Server σ) (TransactionId × Bool) := do
  match ← read fun s => s.currentXid connection with
  | some xid => pure (xid, false)
  | none =>
      let xid ← beginTransaction .readCommitted
      setCurrentXid connection (some xid)
      logRecord (.begin xid.val.toUInt64)
      pure (xid, true)

def closeTransaction (connection : Nat) (xid : TransactionId) (wasImplicitTxn : Bool) :
    Proc (Server σ) Unit :=
  if wasImplicitTxn then do
    logRecord (.commit xid.val.toUInt64)
    endTransaction xid
    flushLog
    setCurrentXid connection none
  else pure ()

/-- The frame of a handler whose work may need a transaction of its own. -/
def inTransaction (connection : Nat) (work : TransactionId → Proc (Server σ) Response) :
    Proc (Server σ) Response := do
  let (xid, wasImplicitTxn) ← openTransaction connection
  let response ← work xid
  closeTransaction connection xid wasImplicitTxn
  pure response

variable [StorageTrait σ]

def handleSelectStatement (relOid : Oid) (connection : Nat) : Proc (Server σ) Response :=
  inTransaction connection fun xid => do
    let snapshot ← read fun s => s.txnMgr.getSnapshotForStatement xid
    let result ← attempt (onDb (heapScanWithOptionalSnapshot relOid (some snapshot)))
    pure (reply .rows result)

def handleInsertStatement (relOid : Oid) (values : List Bytes) (connection : Nat) :
    Proc (Server σ) Response :=
  inTransaction connection fun _ => do
    let result ← attempt (onDb (tupleInsert relOid values))
    pure (reply (fun _ => .commandComplete "INSERT 1") result)

def handleUpdateStatement (relOid : Oid) (value : Bytes) (connection : Nat) :
    Proc (Server σ) Response :=
  inTransaction connection fun _ => do
    let result ← attempt (onDb (tupleUpdate relOid 0 value none))
    pure (reply (fun updated => .commandComplete s!"UPDATE {updated}") result)

def handleDeleteStatement (relOid : Oid) (connection : Nat) : Proc (Server σ) Response :=
  inTransaction connection fun _ => do
    let result ← attempt (onDb (tupleDelete relOid none))
    pure (reply (fun deleted => .commandComplete s!"DELETE {deleted}") result)

omit [Bincode] [StorageTrait σ] in
def handleBeginStatement (isolationLevel : Option IsolationLevel) (connection : Nat) :
    Proc (Server σ) Response := do
  let xid ← beginTransaction (isolationLevel.getD .readCommitted)
  setCurrentXid connection (some xid)
  pure (.commandComplete "BEGIN")

/-- The end of an explicit transaction; without one, only the reply is sent. -/
def finishStatement (record : TransactionId → WALRecord) (tag : String) (connection : Nat) :
    Proc (Server σ) Response := do
  match ← read fun s => s.currentXid connection with
  | some xid =>
      endTransaction xid
      logRecord (record xid)
      flushLog
  | none => pure ()
  setCurrentXid connection none
  pure (.commandComplete tag)

def handleCommitStatement (connection : Nat) : Proc (Server σ) Response :=
  finishStatement (fun xid => .commit xid.val.toUInt64) "COMMIT" connection

def handleRollbackStatement (connection : Nat) : Proc (Server σ) Response :=
  finishStatement (fun xid => .abort xid.val.toUInt64) "ROLLBACK" connection

def handleStatement (relOid : Oid) (connection : Nat) : Statement → Proc (Server σ) Response
  | .begin isolationLevel => handleBeginStatement isolationLevel connection
  | .insert values => handleInsertStatement relOid values connection
  | .update value => handleUpdateStatement relOid value connection
  | .delete => handleDeleteStatement relOid connection
  | .select => handleSelectStatement relOid connection
  | .commit => handleCommitStatement connection
  | .rollback => handleRollbackStatement connection

end

/-- A statement on a connection, with its reply. -/
structure Event where
  connection : Nat
  statement : Statement
  response : Response

/-- One statement whose handler does not panic. -/
def ServerStep [Bincode] {σ : Type} [StorageTrait σ] (relOid : Oid) (s : Server σ)
    (event : Event) (s' : Server σ) : Prop :=
  handleStatement relOid event.connection event.statement s = .ok event.response s'

/-- The server over a table without rows. -/
def freshServer {σ : Type} (db : Database σ) : Server σ where
  db := db
  txnMgr := TransactionManager.new
  currentXid _ := none

end PostgressRs.Server.StatementHandlers
