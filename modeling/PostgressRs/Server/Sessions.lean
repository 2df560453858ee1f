import PostgressRs.Server.HandlerEffects

/-!
In which order the handlers begin, log and end transactions.
-/

namespace PostgressRs.Server.Sessions

open PostgressRs.Executor.HeapAccess
open PostgressRs.Lib.ByteBuffer
open PostgressRs.Lib.Effects
open PostgressRs.Lib.Effects.Program
open PostgressRs.Protocol.Backend
open PostgressRs.Server.HandlerEffects
open PostgressRs.Server.Queries
open PostgressRs.Server.QueryHandlers
open PostgressRs.Txn.TransactionTable
open PostgressRs.Types
open PostgressRs.Wal.LogRecord

variable {ε κ : Type} [TextFormat ε]

/-- Where a connection stands: outside of a transaction, inside one, or inside one
whose `Commit` record has just been appended. -/
inductive Session where
  | outside
  | inside (xid : TransactionId)
  | logged (xid : TransactionId)
deriving DecidableEq

namespace Session

/-- Between two statements. -/
def between : Option TransactionId → Session
  | none => outside
  | some xid => inside xid

/-- The transaction the connection is in. -/
def xid? : Session → Option TransactionId
  | outside => none
  | inside xid => some xid
  | logged xid => some xid

end Session

def isBegin : Query ε κ → Bool
  | .begin _ => true
  | .statement (.begin _) => true
  | _ => false

def isCommit : Query ε κ → Bool
  | .commit => true
  | .statement .commit => true
  | _ => false

/-- The order of a connection's effects on its transaction.  `nested`: a transaction
may be begun inside another one.  `explicit`: a transaction's `Commit` record is not
appended before the transaction has ended. -/
def sessionOrder (nested explicit : Bool) :
    Session → Event (serverEffects κ) → Option Session
  | .logged xid, ⟨.commit xid', _⟩ => if xid' = xid then some .outside else none
  | .logged _, _ => none
  | .outside, ⟨.begin _, xid⟩ => some (.inside xid)
  | .outside, ⟨.commit _, _⟩ => none
  | .outside, ⟨.rollback _, _⟩ => none
  | .outside, _ => some .outside
  | .inside _, ⟨.begin _, xid⟩ => if nested then some (.inside xid) else none
  | .inside xid, ⟨.commit xid', _⟩ => if xid' = xid then some .outside else none
  | .inside xid, ⟨.rollback xid', _⟩ => if xid' = xid then some .outside else none
  | .inside xid, ⟨.append (.commit value), answer⟩ =>
      if explicit then none
      else if value = xid.val.toUInt64 then
        match answer with
        | .ok _ => some (.logged xid)
        | .error _ => some (.inside xid)
      else none
  | .inside xid, _ => some (.inside xid)

/-- The effects that do not move a session. -/
def IsAside : ServerOp κ → Prop
  | .begin _ => False
  | .commit _ => False
  | .rollback _ => False
  | .append (.commit _) => False
  | _ => True

theorem isAside_sessionOrder {nested explicit : Bool} {cur : Option TransactionId}
    (op : ServerOp κ) (h : IsAside op) (answer : (serverEffects κ).Answer op) :
    sessionOrder nested explicit (.between cur) ⟨op, answer⟩ = some (.between cur) := by
  cases cur with
  | none =>
      cases op with
      | begin _ => exact h.elim
      | commit _ => exact h.elim
      | rollback _ => exact h.elim
      | _ => rfl
  | some xid =>
      cases op with
      | begin _ => exact h.elim
      | commit _ => exact h.elim
      | rollback _ => exact h.elim
      | append record =>
          cases record with
          | commit _ => exact h.elim
          | _ => rfl
      | _ => rfl

theorem aside_dml : AllowsDml (IsAside : ServerOp κ → Prop) where
  listRelations := trivial
  tupleInsert _ _ := trivial
  tupleUpdate _ _ _ _ := trivial
  tupleDelete _ _ := trivial
  send _ := trivial

theorem aside_send (messages : List BackendMessage) :
    Performs IsAside (send messages : ServerProgram κ Unit) :=
  performs_send aside_dml messages

theorem aside_sendError (msg : String) :
    Performs IsAside (sendError msg : ServerProgram κ Unit) :=
  performs_sendError aside_dml msg

theorem aside_reply {α : Type} (result : Except String α)
    (messages : α → List BackendMessage) :
    Performs IsAside (reply result messages : ServerProgram κ Unit) :=
  performs_reply aside_dml result messages

theorem aside_registerCtes (names : List String) :
    Performs IsAside (registerCtes names : ServerProgram κ (List Oid)) := by
  induction names with
  | nil => exact performs_pure _
  | cons name names ih =>
      refine performs_bind (performs_call trivial) fun cteOid => ?_
      refine performs_bind (performs_call trivial) fun _ => ?_
      exact performs_bind ih fun _ => performs_pure _

theorem aside_deleteCtes (cteOids : List Oid) :
    Performs IsAside (deleteCtes cteOids : ServerProgram κ Unit) := by
  induction cteOids with
  | nil => exact performs_pure _
  | cons cteOid cteOids ih => exact performs_bind (performs_call trivial) fun _ => ih

theorem aside_selectWork (select : SelectStatement κ) (xid : TransactionId) :
    Performs IsAside (selectWork select xid) := by
  refine performs_bind (performs_call trivial) fun snapshot => ?_
  refine performs_bind (aside_registerCtes _) fun cteOids => ?_
  refine performs_bind (performs_call trivial) fun result => ?_
  exact performs_bind (aside_reply _ _) fun _ => aside_deleteCtes cteOids

theorem aside_sendRows (relOid : Oid) (rows : List Row) :
    Performs IsAside (sendRows relOid rows : ServerProgram κ (Except String Unit)) := by
  unfold sendRows
  split
  · exact performs_bind (aside_send _) fun _ => performs_pure _
  · refine performs_bind (performs_call trivial) fun state => ?_
    cases state with
    | ok rel => exact performs_bind (aside_send _) fun _ => performs_pure _
    | error e => exact performs_pure _

theorem aside_executeSeqScan (relOid : Oid) :
    Performs IsAside (executeSeqScan relOid : ServerProgram κ (Except String Unit)) := by
  refine performs_bind (performs_call trivial) fun result => ?_
  cases result with
  | ok rows => exact aside_sendRows _ _
  | error e => exact performs_pure _

theorem aside_executeSlowScan (relOid : Oid) (filterStr : String) :
    Performs IsAside (executeSlowScan relOid filterStr : ServerProgram κ (Except String Unit)) := by
  unfold executeSlowScan
  cases parseFilter filterStr with
  | error e => exact performs_pure _
  | ok filter =>
      refine performs_bind (performs_call trivial) fun result => ?_
      cases result with
      | ok rows => exact aside_sendRows _ _
      | error e => exact performs_pure _

theorem aside_scanWork (table : Oid) (whereClause : Option String) :
    Performs IsAside (scanWork table whereClause : ServerProgram κ Unit) := by
  unfold scanWork
  refine performs_bind ?_ fun result => ?_
  · cases whereClause with
    | none => exact aside_executeSeqScan table
    | some filter => exact aside_executeSlowScan table filter
  · cases result with
    | ok a => exact performs_pure _
    | error e => exact aside_sendError e

theorem aside_executeDropTable (name : String) :
    Performs IsAside (executeDropTable name : ServerProgram κ (Except String Unit)) := by
  refine performs_bind (performs_call trivial) fun rels => ?_
  cases rels.find? fun rel => rel.name = name with
  | none => exact performs_pure _
  | some rel => exact performs_bind (performs_call trivial) fun _ => performs_pure _

section

variable {nested explicit : Bool} {cur : Option TransactionId}

/-- What does not move the session, before what follows. -/
theorem aside_bind {α β : Type} {p : ServerProgram κ α} {f : α → ServerProgram κ β}
    {Q : β → Session → Prop} (hp : Performs IsAside p)
    (hf : ∀ a, Follows (sessionOrder nested explicit) Q (.between cur) (f a)) :
    Follows (sessionOrder nested explicit) Q (.between cur) (p >>= f) :=
  steady_bind (hp.steady isAside_sessionOrder) hf

/-- The program ends between two statements, with the `current_xid` it returns. -/
abbrev Returns (nested explicit : Bool) (st : Session)
    (p : ServerProgram κ (Option TransactionId)) : Prop :=
  Follows (sessionOrder nested explicit) (fun cur st' => st' = .between cur) st p

theorem returns_complete (result : Except String Unit) (tag : String)
    (status : TransactionStatus) :
    Returns nested explicit (.between cur)
      (complete result tag status cur : ServerProgram κ (Option TransactionId)) := by
  unfold complete
  cases result with
  | ok a => exact aside_bind (aside_send _) fun _ => rfl
  | error e => exact aside_bind (aside_sendError _) fun _ => rfl

theorem returns_notYetSupported (name : String) :
    Returns nested explicit (.between cur)
      (notYetSupported name cur : ServerProgram κ (Option TransactionId)) :=
  aside_bind (aside_sendError _) fun _ => rfl

theorem returns_beginTransaction (isolation : IsolationLevel)
    (h : nested = false → cur = none) :
    Returns nested explicit (.between cur)
      (beginTransaction isolation : ServerProgram κ (Option TransactionId)) := by
  apply follows_bind
  intro xid
  refine ⟨.between (some xid), ?_, aside_bind (aside_send _) fun _ => rfl⟩
  cases cur with
  | none => rfl
  | some xid' =>
      cases nested with
      | false => cases h rfl
      | true => rfl

/-- The end of a transaction, and what follows it. -/
theorem returns_end {op : ServerOp κ} {xid : TransactionId}
    {f : (serverEffects κ).Answer op → ServerProgram κ (Option TransactionId)}
    (hop : op = .commit xid ∨ op = .rollback xid)
    (hf : ∀ answer, Returns nested explicit .outside (f answer)) :
    Returns nested explicit (.inside xid) (effect op >>= f) := by
  apply follows_bind
  intro answer
  refine ⟨.outside, ?_, hf answer⟩
  rcases hop with rfl | rfl
  · exact if_pos rfl
  · exact if_pos rfl

theorem outside_append (record : WALRecord) :
    Steady (sessionOrder nested explicit) .outside (effect (.append record) : ServerProgram κ _) :=
  steady_call fun _ => rfl

theorem outside_flush :
    Steady (sessionOrder nested explicit) .outside (effect .flush : ServerProgram κ _) :=
  steady_call fun _ => rfl

/-- The reply after a transaction has ended. -/
theorem returns_tag (messages : List BackendMessage) :
    Returns nested explicit .outside
      (do send messages; pure none : ServerProgram κ (Option TransactionId)) :=
  steady_bind (steady_call fun _ => rfl) fun _ => rfl

theorem returns_commit :
    Returns nested explicit (.between cur)
      (handleCommitStatement cur : ServerProgram κ (Option TransactionId)) := by
  cases cur with
  | none => exact returns_tag _
  | some xid =>
      refine returns_end (Or.inl rfl) fun _ => ?_
      refine steady_bind (outside_append _) fun _ => ?_
      exact steady_bind outside_flush fun _ => returns_tag _

theorem returns_rollback :
    Returns nested explicit (.between cur)
      (handleRollbackStatement cur : ServerProgram κ (Option TransactionId)) := by
  cases cur with
  | none => exact returns_tag _
  | some xid =>
      refine returns_end (Or.inr rfl) fun _ => ?_
      refine steady_bind (outside_append _) fun _ => ?_
      exact steady_bind outside_flush fun _ => returns_tag _

theorem returns_set (set : SetStatement) :
    Returns nested explicit (.between cur)
      (handleSetStatement ε set cur : ServerProgram κ (Option TransactionId)) := by
  unfold handleSetStatement
  simp only
  split
  · cases cur with
    | none => exact aside_bind (aside_send _) fun _ => rfl
    | some xid => exact aside_bind (aside_send _) fun _ => rfl
  · exact aside_bind (aside_send _) fun _ => rfl

theorem follows_openTransaction :
    Follows (sessionOrder nested explicit) (fun opened st => st = .between (some opened.1))
      (.between cur) (openTransaction cur : ServerProgram κ (TransactionId × Bool)) := by
  cases cur with
  | some xid => rfl
  | none =>
      refine follows_bind fun xid => ⟨.between (some xid), rfl, ?_⟩
      have hlog : Performs IsAside
          (effect (.append (.begin xid.val.toUInt64)) : ServerProgram κ _) := performs_call trivial
      exact aside_bind hlog fun _ => rfl

theorem returns_closeTransaction (xid : TransactionId) (wasImplicitTxn : Bool) :
    Returns nested false (.between (some xid))
      (closeTransaction xid wasImplicitTxn : ServerProgram κ (Option TransactionId)) := by
  cases wasImplicitTxn with
  | false => rfl
  | true =>
      refine follows_bind fun answer => ?_
      cases answer with
      | ok lsn =>
          refine ⟨.logged xid, ?_, fun result => ⟨.outside, if_pos rfl, ?_⟩⟩
          · simp [sessionOrder, Session.between]
          · exact fun flushed => ⟨.outside, rfl, rfl⟩
      | error e =>
          refine ⟨.inside xid, ?_, fun result => ⟨.outside, if_pos rfl, ?_⟩⟩
          · simp [sessionOrder, Session.between]
          · exact fun flushed => ⟨.outside, rfl, rfl⟩

/-- A statement that runs in a transaction, its own if there is none. -/
theorem returns_inTransaction {work : TransactionId → ServerProgram κ Unit}
    (h : ∀ xid, Performs IsAside (work xid)) :
    Returns nested false (.between cur) (inTransaction cur work) := by
  apply follows_bind
  apply follows_imp follows_openTransaction
  rintro ⟨xid, wasImplicitTxn⟩ st rfl
  refine aside_bind (h xid) fun _ => ?_
  apply follows_bind
  apply follows_imp (returns_closeTransaction xid wasImplicitTxn)
  rintro cur' st rfl
  exact aside_bind (aside_send _) fun _ => rfl

theorem returns_handleStatement (stmt : Statement ε κ)
    (h : nested = false → isBegin (.statement stmt) = true → cur = none) :
    Returns nested (isCommit (.statement stmt)) (.between cur) (handleStatement stmt cur) := by
  cases stmt with
  | select select => exact returns_inTransaction fun xid => aside_selectWork select xid
  | insert insert =>
      exact returns_inTransaction fun _ => performs_insertStatementWork aside_dml insert
  | update update =>
      exact returns_inTransaction fun _ => performs_updateStatementWork aside_dml update
  | delete delete =>
      exact returns_inTransaction fun _ => performs_deleteStatementWork aside_dml delete
  | createTable create =>
      exact aside_bind (performs_executeCreateTable (fun _ => trivial) _ _) fun _ =>
        returns_complete _ _ _
  | createIndex create =>
      exact aside_bind (performs_executeCreateIndex ε trivial trivial (fun _ => trivial) _ _)
        fun _ => returns_complete _ _ _
  | dropTable drop =>
      exact aside_bind (aside_executeDropTable _) fun _ => returns_complete _ _ _
  | begin begin => exact returns_beginTransaction _ fun hnested => h hnested rfl
  | commit => exact returns_commit
  | rollback => exact returns_rollback
  | set set => exact returns_set set
  | createView => exact returns_notYetSupported _
  | createMaterializedView => exact returns_notYetSupported _
  | createSequence => exact returns_notYetSupported _
  | createType => exact returns_notYetSupported _
  | createSchema => exact returns_notYetSupported _
  | alterTable => exact returns_notYetSupported _
  | dropIndex => exact returns_notYetSupported _
  | merge => exact returns_notYetSupported _
  | explain inner => exact returns_notYetSupported _

/-- Every handler keeps the order. -/
theorem returns_handleQuery (query : Query ε κ)
    (h : nested = false → isBegin query = true → cur = none) :
    Returns nested (isCommit query) (.between cur) (handleQuery query cur) := by
  cases query with
  | createTable name columns =>
      exact aside_bind (performs_executeCreateTable (fun _ => trivial) _ _) fun _ =>
        returns_complete _ _ _
  | dropTable name =>
      exact aside_bind (aside_executeDropTable _) fun _ => returns_complete _ _ _
  | createIndex name table column =>
      exact aside_bind (performs_executeCreateIndex ε trivial trivial (fun _ => trivial) _ _)
        fun _ => returns_complete _ _ _
  | begin mode => exact returns_beginTransaction _ fun hnested => h hnested rfl
  | commit => exact returns_commit
  | rollback => exact returns_rollback
  | insert table values => exact returns_inTransaction fun _ => performs_insertWork aside_dml _ _
  | update table column value whereClause =>
      exact returns_inTransaction fun _ => performs_filteredWork aside_dml whereClause fun filter =>
        performs_updateWork aside_dml table value filter
  | delete table whereClause =>
      exact returns_inTransaction fun _ => performs_filteredWork aside_dml whereClause fun filter =>
        performs_deleteWork aside_dml table filter
  | select table whereClause columns =>
      exact returns_inTransaction fun _ => aside_scanWork _ _
  | statement stmt => exact returns_handleStatement stmt h

end

end PostgressRs.Server.Sessions
