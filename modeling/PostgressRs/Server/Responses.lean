import PostgressRs.Server.Sessions

/-!
The messages that the handlers send, and when a statement fails.
-/

namespace PostgressRs.Server.Responses

open PostgressRs.Executor.HeapAccess
open PostgressRs.Lib.ByteBuffer
open PostgressRs.Lib.Effects
open PostgressRs.Lib.Effects.Program
open PostgressRs.Lib.Procedure hiding ofExcept orPanic
open PostgressRs.Lib.Transitions
open PostgressRs.RelationCatalog
open PostgressRs.Protocol.Backend
open PostgressRs.Server.Queries
open PostgressRs.Server.HandlerEffects
open PostgressRs.Server.QueryHandlers
open PostgressRs.Server.Sessions
open PostgressRs.Storage.PageStore
open PostgressRs.Txn.TransactionTable
open PostgressRs.Types
open PostgressRs.Wal.LogRecord

section Messages

variable {κ σ α β : Type} [Bincode] [StorageTrait σ] (executor : SelectExecutor κ σ)

def sentBy : Event (serverEffects κ) → List BackendMessage
  | ⟨.send messages, _⟩ => messages
  | _ => []

/-- The messages that a program sends. -/
def sent (p : ServerProgram κ α) (s : Shared σ) : List BackendMessage :=
  (trace (serverMachine executor) p s).flatMap fun tr => sentBy tr.label

theorem sent_bind_ok {p : ServerProgram κ α} {f : α → ServerProgram κ β} {s s' : Shared σ} {a : α}
    (h : run (serverMachine executor) p s = .ok a s') :
    sent executor (p >>= f) s = sent executor p s ++ sent executor (f a) s' := by
  simp only [sent, trace_bind_ok _ h, List.flatMap_append]

theorem sent_bind_stop {p : ServerProgram κ α} {f : α → ServerProgram κ β} {s : Shared σ}
    (h : ∀ a s', run (serverMachine executor) p s ≠ .ok a s') :
    sent executor (p >>= f) s = sent executor p s := by
  simp only [sent, trace_bind_stop _ h]

theorem sent_effect_bind (op : ServerOp κ) (f : (serverEffects κ).Answer op → ServerProgram κ β)
    (s : Shared σ) :
    sent executor (effect op >>= f) s =
      match serverMachine executor op s with
      | some (answer, s') => sentBy ⟨op, answer⟩ ++ sent executor (f answer) s'
      | none => [] := by
  simp only [sent, effect, call, bind_eq, Program.bind, trace]
  cases serverMachine executor op s with
  | none => rfl
  | some entry => rfl

/-- The effects other than `send`. -/
def IsSilent (op : ServerOp κ) : Prop := ∀ messages, op ≠ .send messages

theorem sent_silent {p : ServerProgram κ α} (h : Performs IsSilent p) (s : Shared σ) :
    sent executor p s = [] := by
  rw [sent, List.flatMap_eq_nil_iff]
  intro tr htr
  have hsilent := h.trace (serverMachine executor) s tr htr
  obtain ⟨_, ⟨op, answer⟩, _⟩ := tr
  cases op with
  | send messages => exact absurd rfl (hsilent messages)
  | _ => rfl

theorem sent_reply (result : Except String α) (messages : α → List BackendMessage) (s : Shared σ) :
    sent executor (reply result messages) s =
      match result with
      | .ok a => messages a
      | .error e => errorMessages e := by
  cases result with
  | ok a => exact List.append_nil _
  | error e => rfl

end Messages

section Replies

def IsReady (message : BackendMessage) : Prop := ∃ status, message = .readyForQuery status

def IsError (message : BackendMessage) : Prop := ∃ fields, message = .errorResponse fields

def Clean (messages : List BackendMessage) : Prop :=
  ∀ message ∈ messages, ¬IsReady message ∧ ¬IsError message

/-- A failure is answered by the messages of `send_error`; without one there is
neither an error nor a `ReadyForQuery` yet. -/
def Reports (fails : Prop) (messages : List BackendMessage) : Prop :=
  (fails ∧ ∃ e, messages = errorMessages e) ∨ (¬fails ∧ Clean messages)

theorem reports_error {fails : Prop} (h : fails) (e : String) : Reports fails (errorMessages e) :=
  Or.inl ⟨h, e, rfl⟩

theorem reports_nil {fails : Prop} (h : ¬fails) : Reports fails [] := Or.inr ⟨h, by simp [Clean]⟩

theorem reports_congr {fails fails' : Prop} {messages : List BackendMessage}
    (h : Reports fails messages) (hfails : fails ↔ fails') : Reports fails' messages := by
  rwa [Reports, ← hfails]

theorem clean_commandComplete (tag : String) : Clean [.commandComplete tag] := by
  simp [Clean, IsReady, IsError]

theorem not_isReady_dataRow (row : List String) : ¬IsReady (dataRow row) := by
  simp [IsReady, dataRow]

theorem not_isError_dataRow (row : List String) : ¬IsError (dataRow row) := by
  simp [IsError, dataRow]

theorem clean_buildSelectMessages (result : SelectResult) : Clean (buildSelectMessages result) := by
  unfold buildSelectMessages
  split
  · simp [Clean, IsReady, IsError]
  · intro message hmem
    simp only [List.mem_cons, List.mem_append, List.mem_map, List.not_mem_nil, or_false] at hmem
    rcases hmem with rfl | ⟨row, _, rfl⟩ | rfl
    · simp [IsReady, IsError]
    · exact ⟨not_isReady_dataRow row, not_isError_dataRow row⟩
    · simp [IsReady, IsError]

theorem clean_rowMessages (rel : Relation) (rows : List Row) : Clean (rowMessages rel rows) := by
  intro message hmem
  simp only [rowMessages, List.mem_cons, List.mem_append, List.mem_map, List.not_mem_nil,
    or_false] at hmem
  rcases hmem with rfl | ⟨row, _, rfl⟩ | rfl
  · simp [IsReady, IsError]
  · exact ⟨not_isReady_dataRow row.2, not_isError_dataRow row.2⟩
  · simp [IsReady, IsError]

end Replies

section Works

variable {ε κ : Type} [TextFormat ε]

/-- The queries that run in a transaction, with what they do there. -/
def work : Query ε κ → Option (TransactionId → ServerProgram κ Unit)
  | .select table whereClause _ => some fun _ => scanWork table whereClause
  | .insert table values => some fun _ => insertWork table values
  | .update table _ value whereClause =>
      some fun _ => filteredWork whereClause (updateWork table value)
  | .delete table whereClause => some fun _ => filteredWork whereClause (deleteWork table)
  | .statement (.select select) => some (selectWork select)
  | .statement (.insert insert) => some fun _ => insertStatementWork insert
  | .statement (.update update) => some fun _ => updateStatementWork update
  | .statement (.delete delete) => some fun _ => deleteStatementWork delete
  | _ => none

theorem handleQuery_of_work {query : Query ε κ} {w : TransactionId → ServerProgram κ Unit}
    (h : work query = some w) (cur : Option TransactionId) :
    handleQuery query cur = inTransaction cur w := by
  cases query with
  | statement stmt =>
      cases stmt with
      | select select => cases h; rfl
      | insert insert => cases h; rfl
      | update update => cases h; rfl
      | delete delete => cases h; rfl
      | _ => cases h
  | select table whereClause columns => cases h; rfl
  | insert table values => cases h; rfl
  | update table column value whereClause => cases h; rfl
  | delete table whereClause => cases h; rfl
  | _ => cases h

theorem aside_work {query : Query ε κ} {w : TransactionId → ServerProgram κ Unit}
    (h : work query = some w) (xid : TransactionId) : Performs IsAside (w xid) := by
  cases query with
  | statement stmt =>
      cases stmt with
      | select select =>
          cases h
          exact aside_selectWork select xid
      | insert insert =>
          cases h
          exact performs_insertStatementWork aside_dml insert
      | update update =>
          cases h
          exact performs_updateStatementWork aside_dml update
      | delete delete =>
          cases h
          exact performs_deleteStatementWork aside_dml delete
      | _ => cases h
  | select table whereClause columns =>
      cases h
      exact aside_scanWork table whereClause
  | insert table values =>
      cases h
      exact performs_insertWork aside_dml table values
  | update table column value whereClause =>
      cases h
      exact performs_filteredWork aside_dml whereClause fun filter =>
        performs_updateWork aside_dml table value filter
  | delete table whereClause =>
      cases h
      exact performs_filteredWork aside_dml whereClause fun filter =>
        performs_deleteWork aside_dml table filter
  | _ => cases h

end Works

section Failures

variable {ε κ σ : Type} [TextFormat ε] [Bincode] [StorageTrait σ] (executor : SelectExecutor κ σ)

def HeapFails {α : Type} (p : Proc (Database σ) α) (s : Shared σ) : Prop :=
  ∃ e db, p s.db = .err e db

def FilterFails (whereClause : Option String) (fails : Option Filter → Prop) : Prop :=
  match parseWhere whereClause with
  | .ok filter => fails filter
  | .error _ => True

def ScanFails (table : Oid) (whereClause : Option String) (s : Shared σ) : Prop :=
  ∃ e s', run (serverMachine executor) (executeScan table whereClause) s = .ok (.error e) s'

def SelectFails (select : SelectStatement κ) (xid : TransactionId) (s : Shared σ) : Prop :=
  ∃ cteOids s' e schema,
    run (serverMachine executor) (registerCtes select.ctes) s = .ok cteOids s' ∧
    executor select (s.txnMgr.getSnapshotForStatement xid) s'.schema = .err e schema

def InsertFails (insert : InsertStatement ε κ) (s : Shared σ) : Prop :=
  match findRelation ε insert.table (listRelations s.catalog) with
  | none => True
  | some rel =>
      match insert.source with
      | .select _ => True
      | .values rows => ∃ row, rows.head? = some row ∧
          HeapFails (tupleInsert rel.relOid (row.map exprBytes)) s

def UpdateFails (update : UpdateStatement ε) (s : Shared σ) : Prop :=
  match findRelation ε update.table (listRelations s.catalog) with
  | none => True
  | some rel => ∃ setClause, update.setClauses.head? = some setClause ∧
      HeapFails (tupleUpdate rel.relOid 0 (exprBytes setClause.value) none) s

def DeleteFails (delete : DeleteStatement ε) (s : Shared σ) : Prop :=
  match findRelation ε delete.table (listRelations s.catalog) with
  | none => True
  | some rel => HeapFails (tupleDelete rel.relOid none) s

/-- The statement fails in the transaction `xid`: its relation is not there, its
filter does not parse, its source is not supported, or the executor's operation
returns an error. -/
def Fails (query : Query ε κ) (xid : TransactionId) (s : Shared σ) : Prop :=
  match query with
  | .select table whereClause _ => ScanFails executor table whereClause s
  | .insert table values => HeapFails (tupleInsert table values) s
  | .update table _ value whereClause =>
      FilterFails whereClause fun filter => HeapFails (tupleUpdate table 0 value filter) s
  | .delete table whereClause =>
      FilterFails whereClause fun filter => HeapFails (tupleDelete table filter) s
  | .statement (.select select) => SelectFails executor select xid s
  | .statement (.insert insert) => InsertFails insert s
  | .statement (.update update) => UpdateFails update s
  | .statement (.delete delete) => DeleteFails delete s
  | _ => False

/-- The statement does not fail in the transaction it runs in. -/
def Succeeds (query : Query ε κ) (cur : Option TransactionId) (s : Shared σ) : Prop :=
  ∀ xid wasImplicitTxn s',
    run (serverMachine executor) (openTransaction cur) s = .ok (xid, wasImplicitTxn) s' →
    ¬Fails executor query xid s'

theorem reports_effect {op : ServerOp κ} {f : (serverEffects κ).Answer op → ServerProgram κ Unit}
    {fails : Prop} {s : Shared σ}
    (hanswer : ∀ answer s', serverMachine executor op s = some (answer, s') →
      Reports fails (sentBy ⟨op, answer⟩ ++ sent executor (f answer) s'))
    (hstop : serverMachine executor op s = none → ¬fails) :
    Reports fails (sent executor (effect op >>= f) s) := by
  rw [sent_effect_bind]
  cases heffect : serverMachine executor op s with
  | none => exact reports_nil (hstop heffect)
  | some entry => exact hanswer entry.1 entry.2 heffect

omit [Bincode] [StorageTrait σ] in
theorem heapFails_iff {α : Type} {p : Proc (Database σ) α} {s s' : Shared σ}
    {result : Except String α} (h : answered (onDb p) s = some (result, s')) :
    HeapFails p s ↔ ∃ e, result = .error e := by
  rw [answered, onDb, within] at h
  cases hp : p s.db with
  | ok a db =>
      rw [hp] at h
      cases h
      simp [HeapFails, hp]
  | err e db =>
      rw [hp] at h
      cases h
      simp [HeapFails, hp]
  | panic =>
      rw [hp] at h
      cases h

omit [Bincode] [StorageTrait σ] in
theorem not_heapFails {α : Type} {p : Proc (Database σ) α} {s : Shared σ}
    (h : answered (onDb p : Proc (Shared σ) α) s = none) : ¬HeapFails p s := by
  rintro ⟨e, db, hp⟩
  rw [answered, onDb, within, hp] at h
  cases h

theorem reports_reply {α : Type} {p : Proc (Database σ) α} {s s' : Shared σ}
    {result : Except String α} {messages : α → List BackendMessage}
    (h : answered (onDb p) s = some (result, s')) (hclean : ∀ a, Clean (messages a)) :
    Reports (HeapFails p s) (sent executor (reply result messages) s') := by
  rw [sent_reply]
  cases result with
  | ok a => exact Or.inr ⟨by simp [heapFails_iff h], hclean a⟩
  | error e => exact reports_error ((heapFails_iff h).mpr ⟨e, rfl⟩) e

theorem reports_insertWork (relOid : Oid) (values : List Bytes) (s : Shared σ) :
    Reports (HeapFails (tupleInsert relOid values) s)
      (sent executor (insertWork relOid values) s) :=
  reports_effect executor (fun _ _ h => reports_reply executor h fun _ => clean_commandComplete _)
    not_heapFails

theorem reports_updateWork (relOid : Oid) (value : Bytes) (filter : Option Filter)
    (s : Shared σ) :
    Reports (HeapFails (tupleUpdate relOid 0 value filter) s)
      (sent executor (updateWork relOid value filter) s) :=
  reports_effect executor (fun _ _ h => reports_reply executor h fun _ => clean_commandComplete _)
    not_heapFails

theorem reports_deleteWork (relOid : Oid) (filter : Option Filter) (s : Shared σ) :
    Reports (HeapFails (tupleDelete relOid filter) s)
      (sent executor (deleteWork relOid filter) s) :=
  reports_effect executor (fun _ _ h => reports_reply executor h fun _ => clean_commandComplete _)
    not_heapFails

theorem reports_filteredWork {whereClause : Option String}
    {work : Option Filter → ServerProgram κ Unit} {fails : Option Filter → Prop} {s : Shared σ}
    (h : ∀ filter, Reports (fails filter) (sent executor (work filter) s)) :
    Reports (FilterFails whereClause fails)
      (sent executor (filteredWork whereClause work) s) := by
  unfold FilterFails filteredWork
  cases parseWhere whereClause with
  | ok filter => exact h filter
  | error e => exact reports_error trivial e

theorem reports_insertStatementWork (insert : InsertStatement ε κ) (s : Shared σ) :
    Reports (InsertFails insert s) (sent executor (insertStatementWork insert) s) := by
  rw [insertStatementWork, sent_effect_bind]
  simp only [serverMachine, sentBy, List.nil_append, InsertFails]
  cases findRelation ε insert.table (listRelations s.catalog) with
  | none => exact reports_error trivial _
  | some rel =>
      cases insert.source with
      | select select => exact reports_error trivial _
      | values rows =>
          cases rows with
          | nil => exact reports_nil (by simp)
          | cons row rows =>
              refine reports_congr (reports_insertWork executor rel.relOid _ s) ?_
              simp

theorem reports_updateStatementWork (update : UpdateStatement ε) (s : Shared σ) :
    Reports (UpdateFails update s) (sent executor (updateStatementWork update) s) := by
  rw [updateStatementWork, sent_effect_bind]
  simp only [serverMachine, sentBy, List.nil_append, UpdateFails]
  cases findRelation ε update.table (listRelations s.catalog) with
  | none => exact reports_error trivial _
  | some rel =>
      cases update.setClauses with
      | nil => exact reports_nil (by simp)
      | cons setClause setClauses =>
          refine reports_congr (reports_updateWork executor rel.relOid _ none s) ?_
          simp

theorem reports_deleteStatementWork (delete : DeleteStatement ε) (s : Shared σ) :
    Reports (DeleteFails delete s) (sent executor (deleteStatementWork delete) s) := by
  rw [deleteStatementWork, sent_effect_bind]
  simp only [serverMachine, sentBy, List.nil_append, DeleteFails]
  cases findRelation ε delete.table (listRelations s.catalog) with
  | none => exact reports_error trivial _
  | some rel => exact reports_deleteWork executor rel.relOid none s

/-- A scan that returns an error has not sent anything. -/
structure ScanSends (p : ServerProgram κ (Except String Unit)) (s : Shared σ) : Prop where
  clean : Clean (sent executor p s)
  error : ∀ e s', run (serverMachine executor) p s = .ok (.error e) s' → sent executor p s = []

theorem scanSends_pure (result : Except String Unit) (s : Shared σ) :
    ScanSends executor (pure result) s :=
  ⟨by simp [Clean, sent, trace_pure], fun _ _ _ => rfl⟩

theorem scanSends_send {messages : List BackendMessage} (h : Clean messages) (s : Shared σ) :
    ScanSends executor (do send messages; pure (.ok ())) s := by
  refine ⟨?_, ?_⟩
  · rw [← List.append_nil messages] at h
    exact h
  · intro e s' hrun
    cases hrun

theorem scanSends_effect {op : ServerOp κ} (hop : ∀ answer, sentBy ⟨op, answer⟩ = [])
    {f : (serverEffects κ).Answer op → ServerProgram κ (Except String Unit)} {s : Shared σ}
    (h : ∀ answer s', ScanSends executor (f answer) s') :
    ScanSends executor (effect op >>= f) s := by
  have hsent := sent_effect_bind executor op f s
  have hrun := run_call_bind (serverMachine executor) op f s
  cases hmachine : serverMachine executor op s with
  | none =>
      simp only [hmachine] at hsent hrun
      refine ⟨?_, fun _ _ _ => hsent⟩
      rw [hsent]
      simp [Clean]
  | some entry =>
      obtain ⟨answer, s'⟩ := entry
      simp only [hmachine, hop, List.nil_append] at hsent hrun
      refine ⟨?_, ?_⟩
      · rw [hsent]
        exact (h answer s').clean
      · intro e t he
        rw [hsent]
        exact (h answer s').error e t (hrun.symm.trans he)

theorem scanSends_sendRows (relOid : Oid) (rows : List Row) (s : Shared σ) :
    ScanSends executor (sendRows relOid rows) s := by
  unfold sendRows
  split
  · exact scanSends_send executor (by simp [Clean, IsReady, IsError]) s
  · refine scanSends_effect executor (fun _ => rfl) fun state s' => ?_
    cases state with
    | ok rel => exact scanSends_send executor (clean_rowMessages rel rows) s'
    | error e => exact scanSends_pure executor _ s'

theorem scanSends_executeScan (table : Oid) (whereClause : Option String) (s : Shared σ) :
    ScanSends executor (executeScan table whereClause) s := by
  cases whereClause with
  | none =>
      refine scanSends_effect executor (fun _ => rfl) fun result s' => ?_
      cases result with
      | ok rows => exact scanSends_sendRows executor table rows s'
      | error e => exact scanSends_pure executor _ s'
  | some filterStr =>
      simp only [executeScan, executeSlowScan]
      cases parseFilter filterStr with
      | error e => exact scanSends_pure executor _ s
      | ok filter =>
          refine scanSends_effect executor (fun _ => rfl) fun result s' => ?_
          cases result with
          | ok rows => exact scanSends_sendRows executor table rows s'
          | error e => exact scanSends_pure executor _ s'

theorem reports_scanWork (table : Oid) (whereClause : Option String) (s : Shared σ) :
    Reports (ScanFails executor table whereClause s)
      (sent executor (scanWork table whereClause) s) := by
  have hscan := scanSends_executeScan executor table whereClause s
  unfold scanWork
  cases hrun : run (serverMachine executor) (executeScan table whereClause) s with
  | ok result s' =>
      rw [sent_bind_ok executor hrun]
      cases result with
      | ok a =>
          have hfails : ¬ScanFails executor table whereClause s := by simp [ScanFails, hrun]
          have hpure : sent executor (pure () : ServerProgram κ Unit) s' = [] := rfl
          rw [hpure, List.append_nil]
          exact Or.inr ⟨hfails, hscan.clean⟩
      | error e =>
          rw [hscan.error e s' hrun, List.nil_append]
          exact reports_error ⟨e, s', hrun⟩ e
  | err e s' =>
      have hfails : ¬ScanFails executor table whereClause s := by simp [ScanFails, hrun]
      rw [sent_bind_stop executor (by simp [hrun])]
      exact Or.inr ⟨hfails, hscan.clean⟩
  | panic =>
      have hfails : ¬ScanFails executor table whereClause s := by simp [ScanFails, hrun]
      rw [sent_bind_stop executor (by simp [hrun])]
      exact Or.inr ⟨hfails, hscan.clean⟩

omit [Bincode] [StorageTrait σ] in
theorem silent_registerCtes (names : List String) :
    Performs IsSilent (registerCtes names : ServerProgram κ (List Oid)) := by
  induction names with
  | nil => exact performs_pure _
  | cons name names ih =>
      refine performs_bind (performs_call (by simp [IsSilent])) fun cteOid => ?_
      refine performs_bind (performs_call (by simp [IsSilent])) fun _ => ?_
      exact performs_bind ih fun _ => performs_pure _

omit [Bincode] [StorageTrait σ] in
theorem silent_deleteCtes (cteOids : List Oid) :
    Performs IsSilent (deleteCtes cteOids : ServerProgram κ Unit) := by
  induction cteOids with
  | nil => exact performs_pure _
  | cons cteOid cteOids ih => exact performs_bind (performs_call (by simp [IsSilent])) fun _ => ih

theorem run_reply {α : Type} (result : Except String α) (messages : α → List BackendMessage)
    (s : Shared σ) : run (serverMachine executor) (reply result messages) s = .ok () s := by
  cases result with
  | ok a => rfl
  | error e => rfl

theorem reports_selectWork (select : SelectStatement κ) (xid : TransactionId) (s : Shared σ) :
    Reports (SelectFails executor select xid s) (sent executor (selectWork select xid) s) := by
  rw [selectWork, sent_effect_bind]
  simp only [serverMachine, sentBy, List.nil_append]
  have hsilent := sent_silent executor (silent_registerCtes select.ctes) s
  cases hrun : run (serverMachine executor) (registerCtes select.ctes) s with
  | ok cteOids s' =>
      rw [sent_bind_ok executor hrun, hsilent, List.nil_append, sent_effect_bind]
      simp only [serverMachine, answered, onSchema, within, sentBy, List.nil_append]
      cases hselect : executor select (s.txnMgr.getSnapshotForStatement xid) s'.schema with
      | ok result schema =>
          have hfails : ¬SelectFails executor select xid s := by simp [SelectFails, hrun, hselect]
          simp only [sent_bind_ok executor (run_reply executor _ _ _), sent_reply,
            sent_silent executor (silent_deleteCtes cteOids), List.append_nil]
          exact Or.inr ⟨hfails, clean_buildSelectMessages result⟩
      | err e schema =>
          simp only [sent_bind_ok executor (run_reply executor _ _ _), sent_reply,
            sent_silent executor (silent_deleteCtes cteOids), List.append_nil]
          exact reports_error ⟨cteOids, s', e, schema, hrun, hselect⟩ e
      | panic => exact reports_nil (by simp [SelectFails, hrun, hselect])
  | err e s' =>
      rw [sent_bind_stop executor (by simp [hrun]), hsilent]
      exact reports_nil (by simp [SelectFails, hrun])
  | panic =>
      rw [sent_bind_stop executor (by simp [hrun]), hsilent]
      exact reports_nil (by simp [SelectFails, hrun])

/-- What a statement sends before its transaction ends. -/
theorem reports_work {query : Query ε κ} {w : TransactionId → ServerProgram κ Unit}
    (h : work query = some w) (xid : TransactionId) (s : Shared σ) :
    Reports (Fails executor query xid s) (sent executor (w xid) s) := by
  cases query with
  | statement stmt =>
      cases stmt with
      | select select =>
          cases h
          exact reports_selectWork executor select xid s
      | insert insert =>
          cases h
          exact reports_insertStatementWork executor insert s
      | update update =>
          cases h
          exact reports_updateStatementWork executor update s
      | delete delete =>
          cases h
          exact reports_deleteStatementWork executor delete s
      | _ => cases h
  | select table whereClause columns =>
      cases h
      exact reports_scanWork executor table whereClause s
  | insert table values =>
      cases h
      exact reports_insertWork executor table values s
  | update table column value whereClause =>
      cases h
      exact reports_filteredWork executor fun filter =>
        reports_updateWork executor table value filter s
  | delete table whereClause =>
      cases h
      exact reports_filteredWork executor fun filter => reports_deleteWork executor table filter s
  | _ => cases h

end Failures

section Frame

variable {κ σ : Type} [Bincode] [StorageTrait σ] (executor : SelectExecutor κ σ)

/-- The end of a statement that runs in a transaction. -/
def conclude (xid : TransactionId) (wasImplicitTxn : Bool) :
    ServerProgram κ (Option TransactionId) := do
  let currentXid ← closeTransaction xid wasImplicitTxn
  send [.readyForQuery (txStatus currentXid)]
  pure currentXid

omit [Bincode] [StorageTrait σ] in
theorem silent_frame : AllowsFrame (IsSilent : ServerOp κ → Prop) where
  begin _ _ := by simp
  append _ _ := by simp
  commit _ _ := by simp
  flush _ := by simp

/-- A statement that ends sends one `ReadyForQuery`, for the `current_xid` it leaves. -/
theorem sent_conclude (xid : TransactionId) (wasImplicitTxn : Bool) (s : Shared σ) :
    match run (serverMachine executor) (conclude xid wasImplicitTxn) s with
    | .ok cur _ => sent executor (conclude xid wasImplicitTxn) s = [.readyForQuery (txStatus cur)]
    | _ => sent executor (conclude xid wasImplicitTxn) s = [] := by
  have hsilent := sent_silent executor (performs_closeTransaction silent_frame xid wasImplicitTxn) s
  unfold conclude
  rw [run_bind, bind_apply]
  cases hrun : run (serverMachine executor) (closeTransaction xid wasImplicitTxn) s with
  | ok cur s' =>
      simp only [sent_bind_ok executor hrun, hsilent, List.nil_append]
      rfl
  | err e s' => exact (sent_bind_stop executor (by simp [hrun])).trans hsilent
  | panic => exact (sent_bind_stop executor (by simp [hrun])).trans hsilent

/-- The messages of a statement: those of its work, if its transaction could be
begun, and those of its end, if the work returns. -/
theorem sent_inTransaction {cur : Option TransactionId}
    (w : TransactionId → ServerProgram κ Unit) {s s' : Shared σ} {xid : TransactionId}
    {wasImplicitTxn : Bool}
    (hopen : run (serverMachine executor) (openTransaction cur) s = .ok (xid, wasImplicitTxn) s') :
    sent executor (inTransaction cur w) s =
      sent executor (w xid) s' ++
        match run (serverMachine executor) (w xid) s' with
        | .ok _ t => sent executor (conclude xid wasImplicitTxn) t
        | _ => [] := by
  have hsilent := sent_silent executor (performs_openTransaction silent_frame cur) s
  unfold inTransaction
  rw [sent_bind_ok executor hopen, hsilent, List.nil_append]
  simp only
  cases hrun : run (serverMachine executor) (w xid) s' with
  | ok a t => exact sent_bind_ok executor hrun
  | err e t =>
      rw [sent_bind_stop executor (by simp [hrun])]
      exact (List.append_nil _).symm
  | panic =>
      rw [sent_bind_stop executor (by simp [hrun])]
      exact (List.append_nil _).symm

theorem sent_inTransaction_stop {cur : Option TransactionId}
    (w : TransactionId → ServerProgram κ Unit) {s : Shared σ}
    (hopen : ∀ opened s', run (serverMachine executor) (openTransaction cur) s ≠ .ok opened s') :
    sent executor (inTransaction cur w) s = [] := by
  unfold inTransaction
  rw [sent_bind_stop executor hopen]
  exact sent_silent executor (performs_openTransaction silent_frame cur) s

end Frame

end PostgressRs.Server.Responses
