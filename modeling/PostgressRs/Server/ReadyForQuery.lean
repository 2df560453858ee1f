import PostgressRs.Server.FailedStatements

/-!
How many times, and with which status, a `Query` message is answered by
`ReadyForQuery`.
-/

namespace PostgressRs.Server.ReadyForQuery

open PostgressRs.Executor.HeapAccess
open PostgressRs.Lib.Effects
open PostgressRs.Lib.Effects.Program
open PostgressRs.Lib.Procedure hiding ofExcept orPanic
open PostgressRs.RelationCatalog
open PostgressRs.Protocol.Backend
open PostgressRs.Server.Connections
open PostgressRs.Server.FailedStatements
open PostgressRs.Server.Queries
open PostgressRs.Server.HandlerEffects
open PostgressRs.Server.QueryHandlers
open PostgressRs.Server.Responses
open PostgressRs.Server.Sessions
open PostgressRs.Storage.PageStore
open PostgressRs.Txn.TransactionTable
open PostgressRs.Types
open PostgressRs.Wal.LogRecord

section Replies

/-- The messages end with their only `ReadyForQuery`, and its status is that of a
connection with `current_xid` `cur`. -/
def OneReady (messages : List BackendMessage) (cur : Option TransactionId) : Prop :=
  ∃ init status, messages = init ++ [.readyForQuery status] ∧
    (∀ message ∈ init, ¬IsReady message) ∧ (status = .inTransaction ↔ cur.isSome = true)

theorem oneReady_snoc {init : List BackendMessage} {status : TransactionStatus}
    {cur : Option TransactionId} :
    OneReady (init ++ [.readyForQuery status]) cur ↔
      (∀ message ∈ init, ¬IsReady message) ∧ (status = .inTransaction ↔ cur.isSome = true) := by
  constructor
  · rintro ⟨init', status', heq, hinit, hstatus⟩
    obtain ⟨rfl, hlast⟩ := List.append_inj' heq rfl
    cases hlast
    exact ⟨hinit, hstatus⟩
  · rintro ⟨hinit, hstatus⟩
    exact ⟨init, status, rfl, hinit, hstatus⟩

theorem not_oneReady_nil (cur : Option TransactionId) : ¬OneReady [] cur := by
  rintro ⟨init, status, heq, _⟩
  simp at heq

theorem txStatus_iff (cur : Option TransactionId) :
    txStatus cur = .inTransaction ↔ cur.isSome = true := by
  cases cur with
  | none => simp [txStatus]
  | some xid => simp [txStatus]

theorem idle_iff (cur : Option TransactionId) :
    (TransactionStatus.idle = .inTransaction ↔ cur.isSome = true) ↔ cur = none := by
  cases cur with
  | none => simp
  | some xid => simp

theorem oneReady_tag {tag : String} {status : TransactionStatus} {cur : Option TransactionId} :
    OneReady [.commandComplete tag, .readyForQuery status] cur ↔
      (status = .inTransaction ↔ cur.isSome = true) := by
  have h := @oneReady_snoc [.commandComplete tag] status cur
  simp only [List.cons_append, List.nil_append] at h
  rw [h]
  simp [IsReady]

/-- After an error the connection has to be outside of a transaction. -/
theorem oneReady_errorMessages {e : String} {cur : Option TransactionId} :
    OneReady (errorMessages e) cur ↔ cur = none := by
  have h := @oneReady_snoc [.errorResponse [{ fieldType := 77, value := e }]] .idle cur
  simp only [List.cons_append, List.nil_append] at h
  rw [errorMessages, h]
  cases cur with
  | none => simp [IsReady]
  | some xid => simp

end Replies

section Handlers

variable {κ σ α : Type} [Bincode] [StorageTrait σ] (executor : SelectExecutor κ σ)

/-- If the handler returns, it has answered once exactly if `good`. -/
def Answers (p : ServerProgram κ (Option TransactionId)) (s : Shared σ) (good : Prop) : Prop :=
  ∀ cur s', run (serverMachine executor) p s = .ok cur s' →
    (OneReady (sent executor p s) cur ↔ good)

theorem answers_tag (tag : String) (status : TransactionStatus) (cur : Option TransactionId)
    (s : Shared σ) :
    Answers executor (do send [.commandComplete tag, .readyForQuery status]; pure cur) s
      (status = .inTransaction ↔ cur.isSome = true) := by
  intro cur' s' hrun
  cases hrun
  exact oneReady_tag

theorem Answers.good {p : ServerProgram κ (Option TransactionId)} {s : Shared σ} {good : Prop}
    (h : Answers executor p s good) (hgood : good) : Answers executor p s True := by
  intro cur s' hrun
  rw [h cur s' hrun]
  exact iff_true_intro hgood

theorem answers_sendError (e : String) (cur : Option TransactionId) (s : Shared σ) :
    Answers executor (do sendError e; pure cur) s (cur = none) := by
  intro cur' s' hrun
  cases hrun
  exact oneReady_errorMessages

theorem answers_effect {op : ServerOp κ} (hop : ∀ answer, sentBy ⟨op, answer⟩ = [])
    {f : (serverEffects κ).Answer op → ServerProgram κ (Option TransactionId)} {s : Shared σ}
    {good : Prop} (h : ∀ answer s', Answers executor (f answer) s' good) :
    Answers executor (effect op >>= f) s good := by
  intro cur t hrun
  rw [effect, run_call_bind] at hrun
  rw [sent_effect_bind]
  cases hmachine : serverMachine executor op s with
  | none =>
      rw [hmachine] at hrun
      cases hrun
  | some entry =>
      obtain ⟨answer, s'⟩ := entry
      simp only [hmachine] at hrun
      simp only [hop, List.nil_append]
      exact h answer s' cur t hrun

theorem answers_bind {p : ServerProgram κ α} {f : α → ServerProgram κ (Option TransactionId)}
    {s : Shared σ} {good : Prop} (hsilent : Performs IsSilent p)
    (h : ∀ a s', run (serverMachine executor) p s = .ok a s' → Answers executor (f a) s' good) :
    Answers executor (p >>= f) s good := by
  intro cur t hcur
  rw [run_bind] at hcur
  obtain ⟨a, s', hrun, hcur⟩ := bind_eq_ok.mp hcur
  rw [sent_bind_ok executor hrun, sent_silent executor hsilent, List.nil_append]
  exact h a s' hrun cur t hcur

theorem answers_complete (result : Except String Unit) (tag : String) (status : TransactionStatus)
    (cur : Option TransactionId) (s : Shared σ) :
    Answers executor (complete result tag status cur) s
      (match result with
      | .ok _ => (status = .inTransaction ↔ cur.isSome = true)
      | .error _ => cur = none) := by
  cases result with
  | ok a => exact answers_tag executor tag status cur s
  | error e => exact answers_sendError executor e cur s

theorem answers_notYetSupported (name : String) (cur : Option TransactionId) (s : Shared σ) :
    Answers executor (notYetSupported name cur) s (cur = none) :=
  answers_sendError executor _ cur s

theorem answers_beginTransaction (isolation : IsolationLevel) (s : Shared σ) :
    Answers executor (beginTransaction isolation) s True := by
  refine answers_effect executor (fun _ => rfl) fun xid s' => ?_
  exact (answers_tag executor _ _ _ s').good executor (by simp)

/-- The reply after a transaction has ended. -/
theorem answers_ended (tag : String) (s : Shared σ) :
    Answers executor (do send [.commandComplete tag, .readyForQuery .idle]; pure none) s True :=
  (answers_tag executor tag .idle none s).good executor (by simp)

theorem answers_commit (cur : Option TransactionId) (s : Shared σ) :
    Answers executor (handleCommitStatement cur) s True := by
  cases cur with
  | none => exact answers_ended executor _ s
  | some xid =>
      refine answers_effect executor (fun _ => rfl) fun _ _ => ?_
      refine answers_effect executor (fun _ => rfl) fun _ _ => ?_
      exact answers_effect executor (fun _ => rfl) fun _ s' => answers_ended executor _ s'

theorem answers_rollback (cur : Option TransactionId) (s : Shared σ) :
    Answers executor (handleRollbackStatement cur) s True := by
  cases cur with
  | none => exact answers_ended executor _ s
  | some xid =>
      refine answers_effect executor (fun _ => rfl) fun _ _ => ?_
      refine answers_effect executor (fun _ => rfl) fun _ _ => ?_
      exact answers_effect executor (fun _ => rfl) fun _ s' => answers_ended executor _ s'

theorem answers_set (ε : Type) [TextFormat ε] (set : SetStatement) (cur : Option TransactionId)
    (s : Shared σ) : Answers executor (handleSetStatement ε set cur) s True := by
  unfold handleSetStatement
  simp only
  split
  · cases cur with
    | none => exact (answers_tag executor _ _ _ s).good executor (by simp)
    | some xid => exact (answers_tag executor _ _ _ s).good executor (by simp)
  · exact (answers_tag executor _ _ _ s).good executor (txStatus_iff cur)

theorem answers_createTable (name : String) (columns : List (String × Oid)) (tag : String)
    (status : TransactionStatus) (cur : Option TransactionId) (s : Shared σ) :
    Answers executor (do executeCreateTable name columns; complete (.ok ()) tag status cur) s
      (status = .inTransaction ↔ cur.isSome = true) := by
  refine answers_effect executor (fun _ => rfl) fun relOid s' => ?_
  exact answers_complete executor (.ok ()) tag status cur s'

/-- The handlers that always send the status of an idle connection. -/
theorem answers_idle {p : ServerProgram κ (Except String Unit)} (hsilent : Performs IsSilent p)
    (tag : String) (cur : Option TransactionId) (s : Shared σ) :
    Answers executor (do let result ← p; complete result tag .idle cur) s (cur = none) := by
  refine answers_bind executor hsilent fun result s' _ => ?_
  have hanswers := answers_complete executor result tag .idle cur s'
  cases result with
  | ok a => rwa [idle_iff] at hanswers
  | error e => exact hanswers

/-- The handlers that send the connection's own status, unless they fail. -/
theorem answers_status {p : ServerProgram κ (Except String Unit)} {found : Prop}
    (hsilent : Performs IsSilent p) {s : Shared σ}
    (hfound : ∀ result s', run (serverMachine executor) p s = .ok result s' →
      (result = .ok () ↔ found)) (tag : String) (cur : Option TransactionId) :
    Answers executor (do let result ← p; complete result tag (txStatus cur) cur) s
      (cur = none ∨ found) := by
  refine answers_bind executor hsilent fun result s' hrun => ?_
  have hanswers := answers_complete executor result tag (txStatus cur) cur s'
  have hiff := hfound result s' hrun
  cases result with
  | ok a =>
      have hgood : cur = none ∨ found := Or.inr (hiff.mp rfl)
      rwa [iff_true_intro (txStatus_iff cur), ← iff_true_intro hgood] at hanswers
  | error e =>
      have hmissing : ¬found := by
        intro h
        cases hiff.mpr h
      rwa [or_iff_left hmissing]

omit [Bincode] [StorageTrait σ] in
theorem silent_executeDropTable (name : String) :
    Performs IsSilent (executeDropTable name : ServerProgram κ (Except String Unit)) := by
  refine performs_bind (performs_call (by simp [IsSilent])) fun rels => ?_
  cases rels.find? fun rel => rel.name = name with
  | none => exact performs_pure _
  | some rel => exact performs_bind (performs_call (by simp [IsSilent])) fun _ => performs_pure _

omit [Bincode] [StorageTrait σ] in
theorem silent_executeCreateIndex (ε : Type) [TextFormat ε] (table column : String) :
    Performs IsSilent
      (executeCreateIndex ε table column : ServerProgram κ (Except String Unit)) :=
  performs_executeCreateIndex ε (fun _ => by simp) (fun _ => by simp) (fun _ _ => by simp)
    table column

/-- A relation of that name is in the catalog. -/
def Named (s : Shared σ) (name : String) : Prop := ∃ rel ∈ listRelations s.catalog, rel.name = name

omit [Bincode] [StorageTrait σ] in
theorem named_iff {s : Shared σ} {name : String} :
    Named s name ↔
      ((listRelations s.catalog).find? fun rel => decide (rel.name = name)).isSome = true := by
  simp [Named]

theorem executeDropTable_found {name : String} {s s' : Shared σ} {result : Except String Unit}
    (h : run (serverMachine executor) (executeDropTable name) s = .ok result s') :
    result = .ok () ↔ Named s name := by
  rw [executeDropTable, effect, run_call_bind] at h
  rw [named_iff]
  simp only [serverMachine] at h
  cases hfind : (listRelations s.catalog).find? fun rel => decide (rel.name = name) with
  | none =>
      rw [hfind] at h
      cases h
      simp
  | some rel =>
      rw [hfind] at h
      cases h
      simp

theorem executeCreateIndex_found (ε : Type) [TextFormat ε] {table column : String}
    {s s' : Shared σ} {result : Except String Unit}
    (h : run (serverMachine executor) (executeCreateIndex ε table column) s = .ok result s') :
    result = .ok () ↔ Named s table := by
  rw [executeCreateIndex, effect, run_call_bind] at h
  rw [named_iff]
  simp only [serverMachine] at h
  cases hfind : (listRelations s.catalog).find? fun rel => decide (rel.name = table) with
  | none =>
      rw [hfind] at h
      cases h
      simp
  | some rel =>
      rw [hfind] at h
      cases h
      simp

end Handlers

section Queries

variable {ε κ σ : Type} [TextFormat ε] [Bincode] [StorageTrait σ] (executor : SelectExecutor κ σ)

/-- When a handler answers once and with the right status: a statement that runs in
a transaction if it does not fail there; a transaction command, `SET` and the simple
parser's `CREATE TABLE` always; its `DROP TABLE` and `CREATE INDEX` if there is the
relation or no transaction; and anything else outside of transactions. -/
def Completes (query : Query ε κ) (cur : Option TransactionId) (s : Shared σ) : Prop :=
  match query with
  | .createTable _ _ => True
  | .dropTable name => cur = none ∨ Named s name
  | .createIndex _ table _ => cur = none ∨ Named s table
  | .begin _ => True
  | .commit => True
  | .rollback => True
  | .statement (.begin _) => True
  | .statement .commit => True
  | .statement .rollback => True
  | .statement (.set _) => True
  | .statement (.select _) => Succeeds executor query cur s
  | .statement (.insert _) => Succeeds executor query cur s
  | .statement (.update _) => Succeeds executor query cur s
  | .statement (.delete _) => Succeeds executor query cur s
  | .statement _ => cur = none
  | _ => Succeeds executor query cur s

theorem answers_work (query : Query ε κ) {w : TransactionId → ServerProgram κ Unit}
    (hwork : work query = some w) (cur : Option TransactionId) (s : Shared σ) :
    Answers executor (handleQuery query cur) s (Succeeds executor query cur s) := by
  intro cur' t hrun
  rw [handleQuery_of_work hwork] at hrun ⊢
  rw [inTransaction, run_bind] at hrun
  obtain ⟨⟨xid, wasImplicitTxn⟩, s', hopen, hrun⟩ := bind_eq_ok.mp hrun
  simp only [run_bind] at hrun
  obtain ⟨_, s'', hw, hrun⟩ := bind_eq_ok.mp hrun
  have hend : run (serverMachine executor) (conclude xid wasImplicitTxn) s'' = .ok cur' t := by
    rw [conclude, run_bind]
    simp only [run_bind]
    exact hrun
  have hconclude := sent_conclude executor xid wasImplicitTxn s''
  rw [hend] at hconclude
  have hsucceeds : Succeeds executor query cur s ↔ ¬Fails executor query xid s' := by
    constructor
    · intro h
      exact h xid wasImplicitTxn s' hopen
    · intro h xid' wasImplicitTxn' t' hopen'
      rw [hopen] at hopen'
      cases hopen'
      exact h
  rw [sent_inTransaction executor w hopen, hw, hsucceeds]
  simp only [hconclude]
  rw [oneReady_snoc, iff_true_intro (txStatus_iff cur'), and_true]
  rcases reports_work executor hwork xid s' with ⟨hfails, e, hsent⟩ | ⟨hfails, hclean⟩
  · refine iff_of_false ?_ (not_not_intro hfails)
    rw [hsent]
    intro h
    exact h _ (List.mem_cons_of_mem _ List.mem_cons_self) ⟨.idle, rfl⟩
  · exact iff_of_true (fun message hmem => (hclean message hmem).1) hfails

theorem answers_handleStatement (stmt : Statement ε κ) (cur : Option TransactionId)
    (s : Shared σ) :
    Answers executor (handleStatement stmt cur) s
      (Completes executor (.statement stmt) cur s) := by
  cases stmt with
  | select select => exact answers_work executor (.statement (.select select)) rfl cur s
  | insert insert => exact answers_work executor (.statement (.insert insert)) rfl cur s
  | update update => exact answers_work executor (.statement (.update update)) rfl cur s
  | delete delete => exact answers_work executor (.statement (.delete delete)) rfl cur s
  | createTable create =>
      have hanswers := answers_createTable executor create.table.join
        (create.columns.map fun col => (col.name, typeOid col.dataType))
        ("CREATE TABLE " ++ create.table.join) .idle cur s
      rwa [idle_iff] at hanswers
  | createIndex create =>
      exact answers_idle executor (silent_executeCreateIndex ε _ _) _ cur s
  | dropTable drop => exact answers_idle executor (silent_executeDropTable _) _ cur s
  | begin begin => exact answers_beginTransaction executor _ s
  | commit => exact answers_commit executor cur s
  | rollback => exact answers_rollback executor cur s
  | set set => exact answers_set executor ε set cur s
  | createView => exact answers_notYetSupported executor _ cur s
  | createMaterializedView => exact answers_notYetSupported executor _ cur s
  | createSequence => exact answers_notYetSupported executor _ cur s
  | createType => exact answers_notYetSupported executor _ cur s
  | createSchema => exact answers_notYetSupported executor _ cur s
  | alterTable => exact answers_notYetSupported executor _ cur s
  | dropIndex => exact answers_notYetSupported executor _ cur s
  | merge => exact answers_notYetSupported executor _ cur s
  | explain inner => exact answers_notYetSupported executor _ cur s

/-- Every handler that returns has answered once exactly under its condition. -/
theorem answers_handleQuery (query : Query ε κ) (cur : Option TransactionId) (s : Shared σ) :
    Answers executor (handleQuery query cur) s (Completes executor query cur s) := by
  cases query with
  | createTable name columns =>
      exact (answers_createTable executor name columns _ _ cur s).good executor (txStatus_iff cur)
  | dropTable name =>
      exact answers_status executor (silent_executeDropTable name)
        (fun _ _ => executeDropTable_found executor) _ cur
  | createIndex name table column =>
      exact answers_status executor (silent_executeCreateIndex ε table column)
        (fun _ _ => executeCreateIndex_found executor ε) _ cur
  | begin mode => exact answers_beginTransaction executor _ s
  | commit => exact answers_commit executor cur s
  | rollback => exact answers_rollback executor cur s
  | select table whereClause columns =>
      exact answers_work executor (.select table whereClause columns) rfl cur s
  | insert table values =>
      exact answers_work executor (.insert table values) rfl cur s
  | update table column value whereClause =>
      exact answers_work executor (.update table column value whereClause) rfl cur s
  | delete table whereClause =>
      exact answers_work executor (.delete table whereClause) rfl cur s
  | statement stmt => exact answers_handleStatement executor stmt cur s

/-- The message is answered by one `ReadyForQuery`, which comes last and has the
status of the connection then. -/
def AnsweredOnce (p : ServerProgram κ (List Char × Option TransactionId)) (s : Shared σ) : Prop :=
  ∃ buffer cur s', run (serverMachine executor) p s = .ok (buffer, cur) s' ∧
    OneReady (sent executor p s) cur

theorem answeredOnce_query (query : Query ε κ) (buffer : List Char) (cur : Option TransactionId)
    (s : Shared σ) :
    AnsweredOnce executor (do let cur ← handleQuery query cur; pure (buffer, cur)) s ↔
      (∃ cur' s', run (serverMachine executor) (handleQuery query cur) s = .ok cur' s') ∧
      Completes executor query cur s := by
  have hanswers := answers_handleQuery executor query cur s
  have hsent : ∀ cur' s', run (serverMachine executor) (handleQuery query cur) s = .ok cur' s' →
      sent executor (do let cur ← handleQuery query cur; pure (buffer, cur)) s =
        sent executor (handleQuery query cur) s := by
    intro cur' s' hhandler
    rw [sent_bind_ok executor hhandler]
    exact List.append_nil _
  constructor
  · rintro ⟨_, cur', t, hrun, hready⟩
    rw [run_bind] at hrun
    obtain ⟨cur'', s', hhandler, hpure⟩ := bind_eq_ok.mp hrun
    cases hpure
    rw [hsent _ _ hhandler] at hready
    exact ⟨⟨_, _, hhandler⟩, (hanswers _ _ hhandler).mp hready⟩
  · rintro ⟨⟨cur', s', hhandler⟩, hcompletes⟩
    refine ⟨buffer, cur', s', ?_, ?_⟩
    · rw [run_bind, bind_ok hhandler]
      rfl
    · rw [hsent _ _ hhandler]
      exact (hanswers cur' s' hhandler).mpr hcompletes

/-- A `Query` message is answered once exactly if its text completes a query whose
handler returns and completes. -/
theorem answered_once_iff (parsers : Parsers ε κ) (sql : String) (buffer : List Char)
    (cur : Option TransactionId) (s : Shared σ) :
    AnsweredOnce executor (handleQueryMessage parsers sql buffer cur) s ↔
      ∃ query, (feed parsers buffer sql.toList).1 = some query ∧
        (∃ cur' s', run (serverMachine executor) (handleQuery query cur) s = .ok cur' s') ∧
        Completes executor query cur s := by
  unfold handleQueryMessage
  obtain ⟨fed, buffer'⟩ := feed parsers buffer sql.toList
  cases fed with
  | none =>
      refine iff_of_false ?_ (by simp)
      rintro ⟨_, cur', _, _, hready⟩
      exact not_oneReady_nil cur' hready
  | some query =>
      simp only [Option.some.injEq, exists_eq_left']
      exact answeredOnce_query executor query buffer' cur s

end Queries

section Texts

/-- A parser that knows one statement. -/
def insertParsers : Parsers Empty Unit where
  parse chars :=
    if chars = "INSERT INTO t VALUES (1)".toList then
      some (.insert ⟨⟨["t"]⟩, .values [[.literal (.number "1")]]⟩)
    else none
  parseQueryLegacy _ := none

/-- A text without a semicolon is not answered, and a statement that fails is
answered twice. -/
theorem not_answered_once :
    (¬∃ parsers : Parsers Empty Unit,
      AnsweredOnce noRows (handleQueryMessage parsers "SELECT 1" [] none) emptyShared) ∧
    ¬AnsweredOnce noRows (handleQueryMessage insertParsers "INSERT INTO t VALUES (1);" [] none)
      emptyShared := by
  constructor
  · rintro ⟨parsers, _, cur, _, _, hready⟩
    have hfeed : feed parsers [] "SELECT 1".toList = (none, "SELECT 1".toList) := rfl
    rw [handleQueryMessage, hfeed] at hready
    exact not_oneReady_nil cur hready
  · have hfeed : feed insertParsers [] "INSERT INTO t VALUES (1);".toList =
        (some insertOne, []) := rfl
    rw [handleQueryMessage, hfeed]
    intro hanswered
    obtain ⟨_, hcompletes⟩ := (answeredOnce_query noRows insertOne [] none emptyShared).mp hanswered
    obtain ⟨wal, hopen⟩ := open_emptyShared
    exact hcompletes _ _ _ hopen trivial

end Texts

end PostgressRs.Server.ReadyForQuery
