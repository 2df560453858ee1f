import PostgressRs.Server.QueryHandlers

/-!
Which effects the handlers perform, for any property of effects.
-/

namespace PostgressRs.Server.HandlerEffects

open PostgressRs.Executor.HeapAccess
open PostgressRs.Lib.ByteBuffer
open PostgressRs.Lib.Effects
open PostgressRs.Lib.Effects.Program
open PostgressRs.Protocol.Backend
open PostgressRs.Server.Queries
open PostgressRs.Server.QueryHandlers
open PostgressRs.Txn.TransactionTable
open PostgressRs.Types
open PostgressRs.Wal.LogRecord

variable {ε κ : Type} [TextFormat ε] {P : ServerOp κ → Prop}

section Work

/-- The property holds of the effects of `INSERT`, `UPDATE` and `DELETE`. -/
structure AllowsDml (P : ServerOp κ → Prop) : Prop where
  listRelations : P .listRelations
  tupleInsert (relOid : Oid) (values : List Bytes) : P (.tupleInsert relOid values)
  tupleUpdate (relOid : Oid) (columnIdx : Nat) (newValue : Bytes) (filter : Option Filter) :
    P (.tupleUpdate relOid columnIdx newValue filter)
  tupleDelete (relOid : Oid) (filter : Option Filter) : P (.tupleDelete relOid filter)
  send (messages : List BackendMessage) : P (.send messages)

variable (h : AllowsDml P)

include h

theorem performs_send (messages : List BackendMessage) :
    Performs P (send messages : ServerProgram κ Unit) :=
  performs_call (h.send messages)

theorem performs_sendError (msg : String) :
    Performs P (sendError msg : ServerProgram κ Unit) :=
  performs_bind (performs_send h _) fun _ => performs_send h _

theorem performs_reply {α : Type} (result : Except String α)
    (messages : α → List BackendMessage) :
    Performs P (reply result messages : ServerProgram κ Unit) := by
  cases result with
  | ok a => exact performs_send h _
  | error e => exact performs_sendError h e

theorem performs_insertWork (relOid : Oid) (values : List Bytes) :
    Performs P (insertWork relOid values : ServerProgram κ Unit) :=
  performs_bind (performs_call (h.tupleInsert relOid values)) fun _ => performs_reply h _ _

theorem performs_updateWork (relOid : Oid) (value : Bytes) (filter : Option Filter) :
    Performs P (updateWork relOid value filter : ServerProgram κ Unit) :=
  performs_bind (performs_call (h.tupleUpdate relOid 0 value filter)) fun _ => performs_reply h _ _

theorem performs_deleteWork (relOid : Oid) (filter : Option Filter) :
    Performs P (deleteWork relOid filter : ServerProgram κ Unit) :=
  performs_bind (performs_call (h.tupleDelete relOid filter)) fun _ => performs_reply h _ _

theorem performs_insertStatementWork (insert : InsertStatement ε κ) :
    Performs P (insertStatementWork insert) := by
  refine performs_bind (performs_call h.listRelations) fun rels => ?_
  cases findRelation ε insert.table rels with
  | none => exact performs_sendError h _
  | some rel =>
      cases insert.source with
      | select select => exact performs_sendError h _
      | values rows =>
          cases rows with
          | nil => exact performs_pure _
          | cons row rows => exact performs_insertWork h _ _

theorem performs_updateStatementWork (update : UpdateStatement ε) :
    Performs P (updateStatementWork update : ServerProgram κ Unit) := by
  refine performs_bind (performs_call h.listRelations) fun rels => ?_
  cases findRelation ε update.table rels with
  | none => exact performs_sendError h _
  | some rel =>
      cases update.setClauses with
      | nil => exact performs_pure _
      | cons setClause setClauses => exact performs_updateWork h _ _ _

theorem performs_deleteStatementWork (delete : DeleteStatement ε) :
    Performs P (deleteStatementWork delete : ServerProgram κ Unit) := by
  refine performs_bind (performs_call h.listRelations) fun rels => ?_
  cases findRelation ε delete.table rels with
  | none => exact performs_sendError h _
  | some rel => exact performs_deleteWork h _ _

theorem performs_filteredWork (whereClause : Option String)
    {work : Option Filter → ServerProgram κ Unit} (hwork : ∀ filter, Performs P (work filter)) :
    Performs P (filteredWork whereClause work) := by
  unfold filteredWork
  cases parseWhere whereClause with
  | ok filter => exact hwork filter
  | error e => exact performs_sendError h e

theorem performs_complete (result : Except String Unit) (tag : String)
    (status : TransactionStatus) (currentXid : Option TransactionId) :
    Performs P (complete result tag status currentXid : ServerProgram κ _) := by
  unfold complete
  cases result with
  | ok a => exact performs_bind (performs_send h _) fun _ => performs_pure _
  | error e => exact performs_bind (performs_sendError h e) fun _ => performs_pure _

end Work

section Frame

/-- The property holds of the effects that begin a statement's own transaction and end it. -/
structure AllowsFrame (P : ServerOp κ → Prop) : Prop where
  begin (isolation : IsolationLevel) : P (.begin isolation)
  append (record : WALRecord) : P (.append record)
  commit (xid : TransactionId) : P (.commit xid)
  flush : P .flush

variable (h : AllowsFrame P)

include h

theorem performs_openTransaction (cur : Option TransactionId) :
    Performs P (openTransaction cur : ServerProgram κ (TransactionId × Bool)) := by
  cases cur with
  | some xid => exact performs_pure _
  | none =>
      refine performs_bind (performs_call (h.begin _)) fun xid => ?_
      exact performs_bind (performs_call (h.append _)) fun _ => performs_pure _

theorem performs_closeTransaction (xid : TransactionId) (wasImplicitTxn : Bool) :
    Performs P
      (closeTransaction xid wasImplicitTxn : ServerProgram κ (Option TransactionId)) := by
  cases wasImplicitTxn with
  | false => exact performs_pure _
  | true =>
      refine performs_bind (performs_call (h.append _)) fun _ => ?_
      refine performs_bind (performs_call (h.commit _)) fun _ => ?_
      exact performs_bind (performs_call h.flush) fun _ => performs_pure _

theorem performs_inTransaction (cur : Option TransactionId)
    {work : TransactionId → ServerProgram κ Unit} (hwork : ∀ xid, Performs P (work xid))
    (hsend : ∀ messages, P (.send messages)) : Performs P (inTransaction cur work) := by
  refine performs_bind (performs_openTransaction h cur) fun opened => ?_
  refine performs_bind (hwork opened.1) fun _ => ?_
  refine performs_bind (performs_closeTransaction h opened.1 opened.2) fun currentXid => ?_
  exact performs_bind (performs_call (hsend _)) fun _ => performs_pure _

end Frame

section Ddl

theorem performs_executeCreateTable (hcreate : ∀ rel, P (.createRelation rel)) (name : String)
    (columns : List (String × Oid)) :
    Performs P (executeCreateTable name columns : ServerProgram κ Unit) :=
  performs_bind (performs_call (hcreate _)) fun _ => performs_pure _

variable (ε) in
theorem performs_executeCreateIndex (hlist : P .listRelations) (hallocate : P .allocateOid)
    (hregister : ∀ info, P (.registerIndex info)) (table column : String) :
    Performs P (executeCreateIndex ε table column : ServerProgram κ (Except String Unit)) := by
  refine performs_bind (performs_call hlist) fun rels => ?_
  cases rels.find? fun rel => rel.name = table with
  | none => exact performs_pure _
  | some rel =>
      refine performs_bind (performs_call hallocate) fun rootPage => ?_
      refine performs_bind (performs_call hallocate) fun indexOid => ?_
      exact performs_bind (performs_call (hregister _)) fun _ => performs_pure _

end Ddl

end PostgressRs.Server.HandlerEffects
