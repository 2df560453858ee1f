import PostgressRs.Executor.GroupPartition
import PostgressRs.Executor.InsertedTables
import PostgressRs.Server.DmlRows
import PostgressRs.Server.PipelineAgreement
import PostgressRs.Server.SqlStatements

/-!
A connection that is sent the texts of `INSERT`s into a table and then those of `SELECT`s from
it: the `SELECT`s are answered with what they say of the rows that the `INSERT`s say.
-/

namespace PostgressRs.Server.InsertedRows

open PostgressRs.BufferCache.PagePool
open PostgressRs.BufferCache.SharedCache
open PostgressRs.Executor.Evaluation (Scalars)
open PostgressRs.Executor.GroupPartition (inOrder)
open PostgressRs.Executor.Grouping (Iteration)
open PostgressRs.Executor.HeapAccess
open PostgressRs.Executor.HeapInvariant
open PostgressRs.Executor.HeapSteps (onWal_ok)
open PostgressRs.Executor.IndexScan
open PostgressRs.Executor.InsertComplete
open PostgressRs.Executor.InsertedTables
open PostgressRs.Executor.PooledScan (slotOf_new)
open PostgressRs.Executor.RelationIsolation (asBytes_a first_insert)
open PostgressRs.Executor.RowVersions
open PostgressRs.Executor.SelectExecutor (Table applyClauses applySetOperations executeFrom
  executeSelect executeSelect_eq readFrom resolveTableRef)
open PostgressRs.Executor.SelectValues
open PostgressRs.Executor.SnapshotStability (storedRows)
open PostgressRs.Lib.ByteBuffer
open PostgressRs.Lib.Effects
open PostgressRs.Lib.Effects.Program
open PostgressRs.Lib.Procedure hiding ofExcept orPanic
open PostgressRs.Lib.Utf8
open PostgressRs.RelationCatalog
open PostgressRs.Protocol.Backend
open PostgressRs.Protocol.Frontend
open PostgressRs.Server.DmlRows
open PostgressRs.Server.ExtendedQueries
open PostgressRs.Server.PipelineAgreement
open PostgressRs.Server.Queries
open PostgressRs.Server.QueryHandlers
open PostgressRs.Server.Responses
open PostgressRs.Server.SqlStatements
open PostgressRs.Sql.DmlRoundTrip
open PostgressRs.Sql.FromClauseRoundTrip
open PostgressRs.Sql.SelectPrinter
open PostgressRs.Sql.SelectRoundTrip
open PostgressRs.Sql.TokenText
open PostgressRs.Sql.Tokenizer (isBlank wordToken)
open PostgressRs.Storage.PageStore
open PostgressRs.Txn.TransactionTable
open PostgressRs.Types
open PostgressRs.Wal.LogRecord
open PostgressRs.Wal.WriteAheadLog

section Autocommit

variable {κ σ α : Type} [Bincode] [StorageTrait σ] {executor : SelectExecutor κ σ}
  {s s' : Shared σ}

theorem effect_returns {op : ServerOp κ} {f : (serverEffects κ).Answer op → ServerProgram κ α}
    {a : α} (h : run (serverMachine executor) (QueryHandlers.effect op >>= f) s = .ok a s') :
    ∃ answer t, serverMachine executor op s = some (answer, t) ∧
      run (serverMachine executor) (f answer) t = .ok a s' := by
  rw [QueryHandlers.effect, run_call_bind] at h
  cases heffect : serverMachine executor op s with
  | none =>
      rw [heffect] at h
      cases h
  | some entry =>
      rw [heffect] at h
      exact ⟨entry.1, entry.2, rfl, h⟩

omit [Bincode] [StorageTrait σ] in
theorem answered_onDb {p : Proc (Database σ) α} {result : Except String α}
    (h : answered (onDb p) s = some (result, s')) : s'.txnMgr = s.txnMgr := by
  rw [answered, onDb, within] at h
  cases hp : p s.db with
  | ok a db =>
      rw [hp] at h
      cases h
      rfl
  | err e db =>
      rw [hp] at h
      cases h
      rfl
  | panic =>
      rw [hp] at h
      cases h

/-- A statement outside of transactions that returns: its own one is begun, its work is done and
the transaction is committed. -/
theorem autocommit_returns {w : TransactionId → ServerProgram κ Unit} {cur : Option TransactionId}
    (h : run (serverMachine executor) (inTransaction none w) s = .ok cur s') :
    ∃ s₁ s₂, SameTables s s₁ ∧ s₁.txnMgr = (s.txnMgr.begin .readCommitted).2 ∧
      run (serverMachine executor) (w ⟨s.txnMgr.nextXid⟩) s₁ = .ok () s₂ ∧ SameTables s₂ s' ∧
      s'.txnMgr = (s₂.txnMgr.commit ⟨s.txnMgr.nextXid⟩).2 ∧ cur = none ∧
      sent executor (inTransaction none w) s =
        sent executor (w ⟨s.txnMgr.nextXid⟩) s₁ ++ [.readyForQuery .idle] := by
  obtain ⟨xid, implicit, s₁, s₂, hopen, hwork, hopened, hclosed⟩ := inTransaction_ok h
  have hsent := sent_inTransaction executor w hopen
  have hend : run (serverMachine executor) (conclude xid implicit) s₂ = .ok cur s' := by
    rw [inTransaction, run_bind, bind_ok hopen] at h
    simp only [run_bind] at h
    rw [bind_ok hwork] at h
    rw [conclude, run_bind]
    simp only [run_bind]
    exact h
  have hready := sent_conclude executor xid implicit s₂
  rw [hend] at hready
  rw [hwork] at hsent
  simp only [hready] at hsent
  -- the transaction is begun and logged
  obtain ⟨_, t, hbegin, hopen⟩ := effect_returns hopen
  cases hbegin
  obtain ⟨_, t, happend, hopen⟩ := effect_returns hopen
  cases hopen
  -- and logged, committed and flushed
  rw [conclude, run_bind] at hend
  obtain ⟨_, t, hclose, hdone⟩ := bind_eq_ok.mp hend
  cases hdone
  obtain ⟨_, t₁, hlog, hclose⟩ := effect_returns hclose
  obtain ⟨_, t₂, hcommit, hclose⟩ := effect_returns hclose
  cases hcommit
  obtain ⟨_, t₃, hflush, hclose⟩ := effect_returns hclose
  cases hclose
  refine ⟨s₁, s₂, hopened, answered_onDb happend, hwork, hclosed, ?_, rfl, hsent⟩
  have hlogged : t₁.txnMgr = s₂.txnMgr := answered_onDb hlog
  have hflushed := answered_onDb (p := onWal flush) hflush
  rw [hflushed, hlogged]
  rfl

/-- No transaction is active and the next one is number `n + 1`. -/
structure Idle (n : Nat) (txnMgr : TransactionManager) : Prop where
  next : txnMgr.nextXid = UInt32.ofNat (n + 1)
  active : txnMgr.active = ∅

omit [Bincode] in
theorem Idle.finished {n : Nat} {txnMgr : TransactionManager} (h : Idle n txnMgr) :
    Idle (n + 1) ((txnMgr.begin .readCommitted).2.commit ⟨txnMgr.nextXid⟩).2 := by
  have hlookup : (txnMgr.begin .readCommitted).2.active.lookup ⟨txnMgr.nextXid⟩ =
      some (Transaction.new ⟨txnMgr.nextXid⟩ .readCommitted) := AList.lookup_insert _
  rw [TransactionManager.commit, TransactionManager.finish, hlookup]
  refine ⟨?_, ?_⟩
  · change txnMgr.nextXid + 1 = _
    rw [h.next]
    exact (UInt32.ofNat_add _ _).symm
  · change (txnMgr.active.insert _ _).erase _ = ∅
    rw [h.active]
    apply AList.ext
    exact List.kerase_cons_eq rfl

omit [Bincode] in
/-- The snapshot of the next statement sees what was done before. -/
theorem Idle.sees {m n : Nat} {txnMgr : TransactionManager} (h : Idle n txnMgr) (hmn : m ≤ n)
    (hn : n + 1 < 2 ^ 32) :
    Sees m ((txnMgr.begin .readCommitted).2.getSnapshotForStatement ⟨txnMgr.nextXid⟩) := by
  have hnext : txnMgr.nextXid.toNat = n + 1 := by
    rw [h.next, UInt32.toNat_ofNat']
    exact Nat.mod_eq_of_lt hn
  have hkeys : (txnMgr.begin .readCommitted).2.active.keys = [⟨txnMgr.nextXid⟩] := by
    change (txnMgr.active.insert _ _).keys = _
    rw [h.active]
    rfl
  intro i hi
  have hval : (UInt64.ofNat (i + 1)).toUInt32.toNat = i + 1 := by
    rw [UInt64.toNat_toUInt32, UInt64.toNat_ofNat']
    omega
  refine ⟨?_, ?_, ?_⟩
  · intro hzero
    rw [hzero] at hval
    cases hval
  · change _ ∉ (txnMgr.begin .readCommitted).2.active.keys
    rw [hkeys, List.mem_singleton]
    intro heq
    have hxid := congrArg (fun xid => xid.val.toNat) heq
    simp only [hval, hnext] at hxid
    omega
  · change _ < txnMgr.nextXid
    rw [UInt32.lt_iff_toNat_lt, hval, hnext]
    omega

end Autocommit

section Messages

variable [TextFormat Sql.Ast.Expr]

/-- The text that is stored of a value. -/
def valueText : Sql.Ast.Expr → String
  | .literal (.number n) => n
  | .literal (.string s) => s
  | .literal (.bool b) => if b then "true" else "false"
  | .literal .null => ""
  | expr => debugExpr (toExpr expr)

theorem exprBytes_toExpr (expr : Sql.Ast.Expr) :
    exprBytes (toExpr expr) = asBytes (valueText expr) := by
  cases expr with
  | literal lit =>
      cases lit with
      | null => exact asBytes_empty.symm
      | _ => rfl
  | _ => rfl

/-- `INSERT INTO table VALUES (row)`, and its text. -/
structure SentInsert where
  table : DottedName
  row : PlainRow
  sql : String

def SentInsert.dml (self : SentInsert) : PlainDml :=
  .insert self.table none (.values ⟨self.row, []⟩ none) none

def SentInsert.message (self : SentInsert) : Message := .query self.sql

def SentInsert.values (self : SentInsert) : List String :=
  (self.row.map Sql.ExprPrinter.PlainExpr.toExpr).map valueText

structure SentSelect where
  select : PlainSelect
  sql : String

def SentSelect.message (self : SentSelect) : Message := .query self.sql

/-- The text is that of an `INSERT` into the relation, of a row that a page has room for. -/
structure SentInsert.Proper [Bincode] (catalog : Catalog) (rel : Relation) (x : SentInsert) :
    Prop where
  sends : Sends x.dml.print x.sql
  found : findRelation Sql.Ast.Expr (toName (dottedName x.table)) (listRelations catalog) = some rel
  nulFree : NulFree x.values
  fits : FitsEmptyPage x.values

/-- The text is that of a `SELECT` that reads no other relation. -/
structure SentSelect.Proper (catalog : Catalog) (rel : Relation) (x : SentSelect) : Prop where
  sends : Sends x.select.print x.sql
  found : ∀ read ∈ readsOf x.select.toSelect,
    findRelation Sql.Ast.Expr ⟨read.1.parts⟩ (listRelations catalog) = some rel

end Messages

section Steps

variable [TextFormat Sql.Ast.Expr] [Bincode] [LawfulBincode] {σ : Type} [StorageTrait σ]
  [LawfulStorage σ] {executor : SelectExecutor Sql.Ast.SelectStatement σ} {catalog : Catalog}
  {rel : Relation} {rows : List (List String)} {k : Nat} {s s' : Shared σ}
  {cur : Option TransactionId}

/-- The `INSERT`s of the rows have been done, and `k` transactions in all. -/
structure Filling (catalog : Catalog) (rel : Relation) (rows : List (List String)) (k : Nat)
    (s : Shared σ) : Prop where
  catalog_eq : s.catalog = catalog
  stores : Stores rel.relOid rel.tupleDesc rows s.db
  idle : Idle k s.txnMgr

def inserted (rel : Relation) (x : SentInsert) : List String :=
  fitRow rel.tupleDesc.fields.length x.values

omit [TextFormat Sql.Ast.Expr] [LawfulBincode] [LawfulStorage σ] in
theorem Stores.of_sameTables {relOid : Oid} {desc : TupleDesc}
    (h : Stores relOid desc rows s.db) (hsame : SameTables s s') :
    Stores relOid desc rows s'.db := by
  obtain ⟨rel, hsane⟩ := h.sane
  obtain ⟨pages, hfilled⟩ := h.filled
  refine ⟨⟨rel, hsane.of_cache hsame.cache_eq⟩,
    ⟨pages, hfilled.of_storage (by rw [hsame.cache_eq]) (by rw [hsame.cache_eq])⟩, ?_, ?_,
    hsame.xid_eq.trans h.xid⟩
  · rw [hsame.cache_eq]
    exact h.pool
  · intro snapshot hsees
    rw [← h.shown snapshot hsees]
    simp only [storedRows, hsame.cache_eq]

omit [LawfulBincode] [LawfulStorage σ] in
/-- What the handler makes of an `INSERT`: the relation is looked up and the row inserted. -/
theorem insert_work (executor : SelectExecutor Sql.Ast.SelectStatement σ) {s : Shared σ}
    {x : SentInsert} {insert : InsertStatement Sql.Ast.Expr Sql.Ast.SelectStatement}
    (hinsert : toStatement x.dml.toStatement = .insert insert) (hx : x.Proper s.catalog rel) :
    run (serverMachine executor) (insertStatementWork insert) s =
        run (serverMachine executor) (insertWork rel.relOid (x.values.map asBytes)) s ∧
      sent executor (insertStatementWork insert) s =
        sent executor (insertWork rel.relOid (x.values.map asBytes)) s := by
  cases hinsert
  have hvalues : ((x.row.map Sql.ExprPrinter.PlainExpr.toExpr).map toExpr).map exprBytes =
      x.values.map asBytes := by
    rw [SentInsert.values, List.map_map, List.map_map]
    exact List.map_congr_left fun expr _ => exprBytes_toExpr expr
  rw [insertStatementWork, QueryHandlers.effect, run_call_bind, ← QueryHandlers.effect,
    sent_effect_bind, ← hvalues]
  simp only [serverMachine, hx.found]
  exact ⟨rfl, rfl⟩

/-- One `INSERT`. -/
theorem insert_handled {x : SentInsert} (h : Filling catalog rel rows k s)
    (hx : x.Proper catalog rel) (hcount : rows.length + 1 < 2 ^ 32 - 1)
    (hrun : run (serverMachine executor)
      (handleQuery (.statement (toStatement x.dml.toStatement)) none) s = .ok cur s') :
    cur = none ∧ Filling catalog rel (rows ++ [inserted rel x]) (k + 1) s' ∧
      sent executor (handleQuery (.statement (toStatement x.dml.toStatement)) none) s =
        [.commandComplete "INSERT 1", .readyForQuery .idle] := by
  obtain ⟨s₁, s₂, hopened, hbegin, hwork, hclosed, hcommit, hcur, hsent⟩ :=
    autocommit_returns hrun
  have hcatalog : s₁.catalog = catalog := hopened.catalog_eq.trans h.catalog_eq
  obtain ⟨hrunWork, hsentWork⟩ := insert_work executor rfl (hcatalog ▸ hx)
  rw [hrunWork] at hwork
  have hstores := Stores.of_sameTables h.stores hopened
  have hanswer : serverMachine executor (.tupleInsert rel.relOid (x.values.map asBytes)) s₁ =
      answered (onDb (tupleInsert rel.relOid (x.values.map asBytes))) s₁ := rfl
  obtain hpanic | ⟨db, hinsert, hstored⟩ := hstores.insert hx.nulFree hx.fits hcount
  · rw [answered, onDb, within, hpanic] at hanswer
    rw [insertWork, QueryHandlers.effect, run_call_bind, hanswer] at hwork
    cases hwork
  · rw [answered, onDb, within, hinsert] at hanswer
    rw [run_insertWork executor hinsert] at hwork
    cases hwork
    refine ⟨hcur, ⟨hclosed.catalog_eq.trans hcatalog,
      Stores.of_sameTables (s := { s₁ with db := db }) hstored hclosed, ?_⟩, ?_⟩
    · rw [hcommit]
      change Idle _ (s₁.txnMgr.commit _).2
      rw [hbegin]
      exact h.idle.finished
    · refine hsent.trans ?_
      rw [hsentWork, insertWork, sent_effect_bind, hanswer]
      simp only [sent_reply]
      rfl

variable [Scalars] {order : Iteration} {stack n : Nat} {found : List Row}

/-- The table is only read any more, by the transactions after number `n`. -/
structure Answering (catalog : Catalog) (rel : Relation) (n : Nat) (found : List Row) (k : Nat)
    (s : Shared σ) : Prop where
  catalog_eq : s.catalog = catalog
  shows : Shows rel.relOid rel.tupleDesc n found s.db
  idle : Idle k s.txnMgr

def tableOf (rel : Relation) (found : List Row) : Sql.Ast.ObjectName → Option Sql.Ast.Expr →
    Id Table :=
  fun _ _ => (⟨rel.tupleDesc, found⟩ : Table)

omit [TextFormat Sql.Ast.Expr] [LawfulBincode] [LawfulStorage σ] [Scalars] in
theorem Shows.of_cache {relOid : Oid} {desc : TupleDesc} {db db' : Database σ}
    (h : Shows relOid desc n found db) (hcache : db'.cache = db.cache) :
    Shows relOid desc n found db' := by
  obtain ⟨rel, hsane, hdesc, hsize, hshown⟩ := h
  refine ⟨rel, hsane.of_cache hcache, hdesc, hsize, ?_⟩
  rw [hcache]
  exact hshown

omit [LawfulBincode] [LawfulStorage σ] [Scalars] in
/-- A table without indexes is scanned. -/
theorem gives_resolveTable (stack : Nat)
    (hindexes : ∀ info ∈ catalog.indexes, info.relOid ≠ rel.relOid)
    {name : Sql.Ast.ObjectName} (hfound : findRelation Sql.Ast.Expr ⟨name.parts⟩
      (listRelations catalog) = some rel) {snapshot : Snapshot} (hsees : Sees n snapshot)
    (whereClause : Option Sql.Ast.Expr) :
    Gives (Shows rel.relOid rel.tupleDesc n found : Database σ → Prop)
      (resolveTable Sql.Ast.Expr catalog stack (some snapshot) name whereClause)
      (tableOf rel found name whereClause) := by
  have hnone : chosenIndex Sql.Ast.Expr catalog rel.relOid whereClause = none := by
    rw [chosenIndex]
    cases hcompared : comparedColumn Sql.Ast.Expr whereClause with
    | none => rfl
    | some compared =>
        have hfind : findIndex catalog rel.relOid compared.1 = none := by
          rw [findIndex, List.find?_eq_none]
          intro info hinfo
          simp [hindexes info hinfo]
        simp [hfind]
  rw [resolveTable, hfound]
  simp only [hnone]
  exact gives_bind (Shows.gives hsees) (gives_pure _)

omit [LawfulBincode] [LawfulStorage σ] in
/-- What the executor returns for a `SELECT` that reads no other table. -/
theorem gives_selectExecutor (order : Iteration) (stack : Nat)
    (hindexes : ∀ info ∈ catalog.indexes, info.relOid ≠ rel.relOid)
    {x : SentSelect} (hx : x.Proper catalog rel) {snapshot : Snapshot} (hsees : Sees n snapshot) :
    Gives (fun schema : Schema σ => schema.catalog = catalog ∧
        Shows rel.relOid rel.tupleDesc n found ⟨schema.cache, WAL.new 8192⟩)
      (selectExecutor order stack ⟨[], x.select.toSelect⟩ snapshot)
      (selectOver order (tableOf rel found) x.select.toSelect) := by
  have hselect : Gives (Shows rel.relOid rel.tupleDesc n found : Database σ → Prop)
      (executeSelect order (resolveTable Sql.Ast.Expr catalog stack (some snapshot))
        x.select.toSelect) (selectOver order (tableOf rel found) x.select.toSelect) :=
    gives_executeSelect x.select.toSelect fun read hread =>
      gives_resolveTable stack hindexes (hx.found read hread) hsees read.2
  rintro schema ⟨rfl, hshows⟩
  rw [selectExecutor, bind_ok (read_apply _ _)]
  exact gives_within hselect (fun schema h => h.2)
    (fun schema db h hdb => ⟨h.1, Shows.of_cache hdb rfl⟩) schema ⟨rfl, hshows⟩

omit [LawfulBincode] [LawfulStorage σ] in
/-- One `SELECT`. -/
theorem select_handled {x : SentSelect} (h : Answering catalog rel n found k s) (hn : n ≤ k)
    (hk : k + 1 < 2 ^ 32) (hindexes : ∀ info ∈ catalog.indexes, info.relOid ≠ rel.relOid)
    (hx : x.Proper catalog rel)
    (hrun : run (serverMachine (selectExecutor order stack))
      (handleQuery (.statement (toStatement (.select none x.select.toSelect))) none) s =
        .ok cur s') :
    cur = none ∧ Answering catalog rel n found (k + 1) s' ∧
      sent (selectExecutor order stack)
          (handleQuery (.statement (toStatement (.select none x.select.toSelect))) none) s =
        buildSelectMessages (selectOver order (tableOf rel found) x.select.toSelect) ++
          [.readyForQuery .idle] := by
  obtain ⟨s₁, s₂, hopened, hbegin, hwork, hclosed, hcommit, hcur, hsent⟩ :=
    autocommit_returns hrun
  have hcatalog : s₁.catalog = catalog := hopened.catalog_eq.trans h.catalog_eq
  have hsees := h.idle.sees hn hk
  rw [← hbegin] at hsees
  have hshows : Shows rel.relOid rel.tupleDesc n found (⟨s₁.db.cache, WAL.new 8192⟩ : Database σ) :=
    Shows.of_cache h.shows hopened.cache_eq
  -- the snapshot is taken and no temporary relation registered
  obtain ⟨_, t, hsnapshot, hwork⟩ := effect_returns hwork
  cases hsnapshot
  obtain ⟨answer, t, hanswer, hwork⟩ := effect_returns hwork
  have hmachine : answered (onSchema (selectExecutor order stack ⟨[], x.select.toSelect⟩
      (s₁.txnMgr.getSnapshotForStatement ⟨s.txnMgr.nextXid⟩))) s₁ = some (answer, t) := hanswer
  obtain hpanic | ⟨schema, hselect, hcatalog', hshows'⟩ :=
    gives_selectExecutor order stack hindexes hx hsees s₁.schema
      ⟨hcatalog, hshows⟩
  · rw [answered, onSchema, within, hpanic] at hmachine
    cases hmachine
  · rw [answered, onSchema, within, hselect] at hmachine
    cases hmachine
    cases hwork
    refine ⟨hcur, ⟨hclosed.catalog_eq.trans hcatalog', ?_, ?_⟩, hsent.trans ?_⟩
    · exact Shows.of_cache hshows' hclosed.cache_eq
    · rw [hcommit]
      change Idle _ (s₁.txnMgr.commit _).2
      rw [hbegin]
      exact h.idle.finished
    · have hreplied : sent (selectExecutor order stack)
          (selectWork ⟨cteNames none, x.select.toSelect⟩ ⟨s.txnMgr.nextXid⟩) s₁ =
            buildSelectMessages (selectOver order (tableOf rel found) x.select.toSelect) := by
        change sent _ (selectWork ⟨[], x.select.toSelect⟩ ⟨s.txnMgr.nextXid⟩) s₁ = _
        rw [selectWork, sent_effect_bind]
        simp only [serverMachine, registerCtes, pure_then]
        rw [sent_effect_bind]
        change serverMachine (selectExecutor order stack)
          (.executeSelect ⟨[], x.select.toSelect⟩
            (s₁.txnMgr.getSnapshotForStatement ⟨s.txnMgr.nextXid⟩)) s₁ = _ at hanswer
        simp only [hanswer]
        exact List.append_nil _
      rw [hreplied]

end Steps

section Connection

variable [TextFormat Sql.Ast.Expr] [Bincode] [LawfulBincode] {σ : Type} [StorageTrait σ]
  [LawfulStorage σ] {executor : SelectExecutor Sql.Ast.SelectStatement σ}
  {legacy : List Char → Option (Query Sql.Ast.Expr Sql.Ast.SelectStatement)}
  {catalog : Catalog} {rel : Relation} {rows : List (List String)} {k : Nat} {s s' : Shared σ}
  {c : ConnectionState Sql.Ast.Expr Sql.Ast.SelectStatement}
  {c' : Option (ConnectionState Sql.Ast.Expr Sql.Ast.SelectStatement)}
  {messages : List Message}

omit [LawfulBincode] [LawfulStorage σ] in
/-- What is left of the messages when the first query is handled. -/
theorem first_handled {sql : String} {query : Query Sql.Ast.Expr Sql.Ast.SelectStatement}
    (hfeed : (feed (sqlParsers legacy) [] sql.toList).1 = some query) (hbuffer : c.buffer = [])
    (hrun : run (serverMachine executor)
      (handleMessages (sqlParsers legacy) c (.query sql :: messages)) s = .ok c' s') :
    ∃ cur t, run (serverMachine executor) (handleQuery query c.currentXid) s = .ok cur t ∧
      run (serverMachine executor)
        (handleMessages (sqlParsers legacy) { c with currentXid := cur } messages) t = .ok c' s' ∧
      sent executor (handleMessages (sqlParsers legacy) c (.query sql :: messages)) s =
        sent executor (handleQuery query c.currentXid) s ++
          sent executor
            (handleMessages (sqlParsers legacy) { c with currentXid := cur } messages) t := by
  rw [handleMessages_query hfeed hbuffer] at hrun ⊢
  rw [run_bind] at hrun
  obtain ⟨cur, t, hquery, hrest⟩ := bind_eq_ok.mp hrun
  exact ⟨cur, t, hquery, hrest, sent_bind_ok executor hquery⟩

omit [LawfulBincode] [LawfulStorage σ] in
/-- A query that ends outside of transactions leaves the rest to be handled. -/
theorem first_runs {sql : String} {query : Query Sql.Ast.Expr Sql.Ast.SelectStatement}
    (hfeed : (feed (sqlParsers legacy) [] sql.toList).1 = some query) (hbuffer : c.buffer = [])
    (hxid : c.currentXid = none)
    (hquery : run (serverMachine executor) (handleQuery query none) s = .ok none s')
    (messages : List Message) :
    run (serverMachine executor) (handleMessages (sqlParsers legacy) c (.query sql :: messages)) s =
      run (serverMachine executor) (handleMessages (sqlParsers legacy) c messages) s' := by
  rw [handleMessages_query hfeed hbuffer, hxid, run_bind, bind_ok hquery, ← hxid]

/-- The `INSERT`s are handled one after the other, whatever is sent after them. -/
theorem inserts_handled {inserts : List SentInsert} (h : Filling catalog rel rows k s)
    (hx : ∀ x ∈ inserts, x.Proper catalog rel)
    (hcount : rows.length + inserts.length < 2 ^ 32 - 1)
    (hbuffer : c.buffer = []) (hxid : c.currentXid = none)
    (hrun : run (serverMachine executor) (handleMessages (sqlParsers legacy) c
      (inserts.map SentInsert.message ++ messages)) s = .ok c' s') :
    ∃ t, run (serverMachine executor)
          (handleMessages (sqlParsers legacy) c (inserts.map SentInsert.message)) s =
            .ok (some c) t ∧
      run (serverMachine executor) (handleMessages (sqlParsers legacy) c messages) t =
        .ok c' s' ∧
      Filling catalog rel (rows ++ inserts.map (inserted rel)) (k + inserts.length) t ∧
      sent executor (handleMessages (sqlParsers legacy) c
          (inserts.map SentInsert.message ++ messages)) s =
        inserts.flatMap (fun _ => [.commandComplete "INSERT 1", .readyForQuery .idle]) ++
          sent executor (handleMessages (sqlParsers legacy) c messages) t := by
  induction inserts generalizing rows k s with
  | nil =>
      refine ⟨s, rfl, hrun, ?_, rfl⟩
      rw [List.map_nil, List.append_nil]
      exact h
  | cons x inserts ih =>
      have hproper := hx x List.mem_cons_self
      rw [List.length_cons] at hcount
      rw [List.map_cons, List.cons_append] at hrun
      have hne : x.dml.print ≠ [] := List.cons_ne_nil _ _
      have hfeed := congrArg Prod.fst (feed_of_sends legacy
        (fun fuel hfuel => reads_dmlStatement x.dml hfuel) hne hproper.sends)
      obtain ⟨cur, t, hquery, hrest, hsent⟩ := first_handled hfeed hbuffer hrun
      rw [hxid] at hquery hsent
      obtain ⟨rfl, hfilling, hanswer⟩ := insert_handled h hproper (by omega) hquery
      have hsame : ({ c with currentXid := none } : ConnectionState _ _) = c := by
        rw [← hxid]
      rw [hsame] at hrest hsent
      obtain ⟨u, hinserts, hmessages, hfilled, hrestSent⟩ :=
        ih hfilling (fun y hy => hx y (List.mem_cons_of_mem x hy))
          (by rw [List.length_append, List.length_singleton]; omega) hrest
      rw [List.append_assoc, Nat.add_assoc, Nat.add_comm 1] at hfilled
      refine ⟨u, ?_, hmessages, hfilled, ?_⟩
      · exact (first_runs hfeed hbuffer hxid hquery _).trans hinserts
      · refine hsent.trans ?_
        rw [hanswer, hrestSent]
        rfl

variable [Scalars] {order : Iteration} {stack n : Nat} {found : List Row}

omit [LawfulBincode] [LawfulStorage σ] in
/-- And so are the `SELECT`s. -/
theorem selects_handled {selects : List SentSelect} (h : Answering catalog rel n found k s)
    (hn : n ≤ k) (hk : k + selects.length < 2 ^ 32)
    (hindexes : ∀ info ∈ catalog.indexes, info.relOid ≠ rel.relOid)
    (hx : ∀ x ∈ selects, x.Proper catalog rel)
    (hbuffer : c.buffer = []) (hxid : c.currentXid = none)
    (hrun : run (serverMachine (selectExecutor order stack)) (handleMessages (sqlParsers legacy) c
      (selects.map SentSelect.message)) s = .ok c' s') :
    sent (selectExecutor order stack) (handleMessages (sqlParsers legacy) c
        (selects.map SentSelect.message)) s =
      selects.flatMap fun x =>
        buildSelectMessages (selectOver order (tableOf rel found) x.select.toSelect) ++
          [.readyForQuery .idle] := by
  induction selects generalizing k s with
  | nil => rfl
  | cons x selects ih =>
      have hproper := hx x List.mem_cons_self
      rw [List.length_cons] at hk
      obtain ⟨tokens, hprint⟩ := exists_print_select x.select
      have hne : x.select.print ≠ [] := by
        rw [hprint]
        exact List.cons_ne_nil _ _
      have hfeed := congrArg Prod.fst (feed_of_sends legacy
        (fun fuel hfuel => reads_selectStatement x.select hfuel) hne
        hproper.sends)
      obtain ⟨cur, t, hquery, hrest, hsent⟩ := first_handled hfeed hbuffer hrun
      rw [hxid] at hquery hsent
      obtain ⟨rfl, hanswering, hanswer⟩ := select_handled h hn (by omega) hindexes hproper hquery
      have hsame : ({ c with currentXid := none } : ConnectionState _ _) = c := by
        rw [← hxid]
      rw [hsame] at hrest hsent
      refine hsent.trans ?_
      rw [hanswer, ih hanswering (by omega) (by omega)
        (fun y hy => hx y (List.mem_cons_of_mem x hy)) hrest]
      rfl

/-- A table without rows and indexes, on a server where no row has been inserted or read and no
transaction is active. -/
structure FreshTable (rel : Relation) (k : Nat) (s : Shared σ) : Prop where
  registered : s.db.cache.rels.lookup rel.relOid = some rel
  empty : rel.pages = []
  unindexed : ∀ info ∈ s.catalog.indexes, info.relOid ≠ rel.relOid
  pool : s.db.cache.disk.pool = BufferPool.new 1024
  xid : s.db.wal.currentXid = 1
  idle : Idle k s.txnMgr

end Connection

section OneRow

attribute [local instance] Executor.Evaluation.wholeNumbers

/-- Case mapping for names in ASCII. -/
instance asciiNames : TextFormat Sql.Ast.Expr where
  toUppercase name := String.ofList (name.toList.map Char.toUpper)
  toLowercase name := String.ofList (name.toList.map Char.toLower)
  debugExpr _ := ""

variable {executor : SelectExecutor Sql.Ast.SelectStatement EphemeralStorage}
  {s : Shared EphemeralStorage} {count : Nat}

theorem append_answers (executor : SelectExecutor Sql.Ast.SelectStatement EphemeralStorage)
    {s : Shared EphemeralStorage} {record : WALRecord} {data : Bytes}
    (hdata : serializeRecord record = .ok data) (hsize : data.length ≤ 8192)
    (hready : Ready s.db.wal (count + 1)) :
    ∃ lsn wal, serverMachine executor (.append record) s =
        some (.ok lsn, { s with db := ⟨s.db.cache, wal⟩ }) ∧
      Ready wal count ∧ wal.currentXid = s.db.wal.currentXid := by
  obtain ⟨lsn, wal, happend, hready', hxid⟩ := append_ok hready hdata hsize
  refine ⟨lsn, wal, ?_, hready', hxid⟩
  change answered (onDb (onWal (append record))) s = _
  rw [answered, onDb, within, onWal_ok happend]

/-- A statement outside of transactions returns if its work does and the log has room. -/
theorem autocommit_runs {w : TransactionId → ServerProgram Sql.Ast.SelectStatement Unit}
    {Q : SharedBufferCache EphemeralStorage → Prop} {rest : Nat}
    (hready : Ready s.db.wal (count + 1))
    (hwork : ∀ wal, Ready wal count → wal.currentXid = s.db.wal.currentXid →
      ∃ s₂, run (serverMachine executor) (w ⟨s.txnMgr.nextXid⟩)
          { s with txnMgr := (s.txnMgr.begin .readCommitted).2, db := ⟨s.db.cache, wal⟩ } =
            .ok () s₂ ∧ Q s₂.db.cache ∧ Ready s₂.db.wal (rest + 1)) :
    ∃ s', run (serverMachine executor) (inTransaction none w) s = .ok none s' ∧ Q s'.db.cache ∧
      Ready s'.db.wal rest := by
  let begun : Shared EphemeralStorage :=
    { s with txnMgr := (s.txnMgr.begin .readCommitted).2 }
  have hsize (record : WALRecord) (xid : UInt64)
      (hrecord : record = .begin xid ∨ record = .commit xid) :
      (encodeRecord record).length ≤ 8192 := by
    rcases hrecord with rfl | rfl <;>
      simp only [encodeRecord, List.length_append, toLeBytes_length] <;> omega
  obtain ⟨_, wal, happend, hready₁, hxid⟩ := append_answers executor (s := begun) rfl
    (hsize _ s.txnMgr.nextXid.toUInt64 (.inl rfl)) hready
  obtain ⟨s₂, hrun, hcache, hready₂⟩ := hwork wal hready₁ hxid
  obtain ⟨_, wal', happend', hready₃, _⟩ := append_answers executor rfl
    (hsize _ s.txnMgr.nextXid.toUInt64 (.inr rfl)) hready₂
  have hopen : run (serverMachine executor) (openTransaction none) s =
      .ok (⟨s.txnMgr.nextXid⟩, true)
        { s with txnMgr := (s.txnMgr.begin .readCommitted).2, db := ⟨s.db.cache, wal⟩ } := by
    rw [openTransaction, QueryHandlers.effect, run_call_bind]
    change run _ (QueryHandlers.effect (.append (.begin s.txnMgr.nextXid.toUInt64)) >>= _) begun = _
    rw [QueryHandlers.effect, run_call_bind]
    simp only [happend]
    rfl
  let closed : Shared EphemeralStorage :=
    { s₂ with
      txnMgr := (s₂.txnMgr.commit ⟨s.txnMgr.nextXid⟩).2
      db :=
        ⟨s₂.db.cache,
          { wal' with flushedLsn := wal'.currentLsn, flushCount := wal'.flushCount + 1 }⟩ }
  have hclose : run (serverMachine executor) (closeTransaction ⟨s.txnMgr.nextXid⟩ true) s₂ =
      .ok none closed := by
    rw [closeTransaction, if_pos rfl, QueryHandlers.effect, run_call_bind]
    simp only [happend']
    rfl
  refine ⟨closed, ?_, hcache, ⟨hready₃.segment_pos, hready₃.page_length, hready₃.lsn_lt⟩⟩
  rw [inTransaction, run_bind, bind_ok hopen]
  simp only [run_bind]
  rw [bind_ok hrun, bind_ok hclose]
  rfl

def insertA : SentInsert where
  table := ⟨sampleTable, []⟩
  row := ⟨.literal (.string "a"), []⟩
  sql := "INSERT INTO t VALUES ( 'a');"

def selectAll : SentSelect where
  select := .mk .all .star [] (.some (.named ⟨sampleTable, []⟩) none .nil) none [] none [] none none
    [] .nil
  sql := "SELECT * FROM t;"

theorem insertA_sends : Sends insertA.dml.print insertA.sql := by
  have hprint : insertA.dml.print =
      [.keyword "INSERT", .keyword "INTO", .ident "t", .keyword "VALUES", .lParen, .string "a",
        .rParen] := rfl
  have hsql : insertA.sql.toList = "INSERT INTO t VALUES ( 'a')".toList ++ [';'] := rfl
  have htrim : trim "INSERT INTO t VALUES ( 'a')".toList =
      "INSERT INTO t VALUES ( 'a')".toList := by decide
  refine ⟨_, hsql, by simp [StatementSplitting.endsLineChar], ?_⟩
  rw [htrim, hprint, wordToken_selectWord "INSERT" (by decide),
    wordToken_selectWord "INTO" (by decide), wordToken_selectWord "VALUES" (by decide),
    ident_sampleName "t" (by decide)]
  have hblank : isBlank ' ' = true := rfl
  have hclose : TextOf .rParen [')'] fun _ => false := .punctuation rfl
  have hstring : TextOf (.string "a") "'a'".toList fun _ => false := .string (by decide)
  have hopen : TextOf .lParen ['('] fun _ => false := .punctuation rfl
  have hvalue := Writes.token hstring (fun _ _ => rfl)
    (.token hclose (fun _ _ => rfl) .done)
  have hvalues := Writes.token hopen (fun _ _ => rfl) (.blank hblank hvalue)
  exact (((hvalues.word "VALUES" rfl).word "t" rfl).word "INTO" rfl).word "INSERT" rfl

theorem selectAll_sends : Sends selectAll.select.print selectAll.sql := by
  have hprint : selectAll.select.print =
      [.keyword "SELECT", .star, .keyword "FROM", .ident "t"] := rfl
  have hsql : selectAll.sql.toList = "SELECT * FROM t".toList ++ [';'] := rfl
  have htrim : trim "SELECT * FROM t".toList = "SELECT * FROM t".toList := by decide
  refine ⟨_, hsql, by simp [StatementSplitting.endsLineChar], ?_⟩
  rw [htrim, hprint, wordToken_selectWord "SELECT" (by decide),
    wordToken_selectWord "FROM" (by decide), ident_sampleName "t" (by decide)]
  have hblank : isBlank ' ' = true := rfl
  have hstar : TextOf .star ['*'] fun _ => false := .punctuation rfl
  have htable : Writes [wordToken "t"] "t".toList :=
    .token (@textOf_word "t" rfl) (by simp) .done
  exact (Writes.token hstar (fun _ _ => rfl) (.blank hblank
    (htable.word "FROM" rfl))).word "SELECT" rfl

theorem freshTable_tableShared : FreshTable emptyTable 0 tableShared := by
  have hindexes : tableShared.catalog.indexes = [] := rfl
  refine ⟨rfl, rfl, ?_, rfl, rfl, ⟨rfl, rfl⟩⟩
  simp [hindexes]

theorem proper_insertA : insertA.Proper tableShared.catalog emptyTable := by
  have hvalues : insertA.values = ["a"] := rfl
  refine ⟨insertA_sends, rfl, ?_, fun xid => ?_⟩
  · intro value hvalue
    rw [hvalues] at hvalue
    rw [List.mem_singleton.mp hvalue, asBytes_a]
    decide
  · obtain ⟨encoded, hencoded, hsize⟩ := @serialize_oneValue "a"
      (by rw [asBytes_a]; decide) xid
    rw [asBytes_a, List.length_singleton] at hsize
    refine ⟨encoded, ?_, by omega⟩
    rw [hvalues]
    exact hencoded

theorem proper_selectAll : selectAll.Proper tableShared.catalog emptyTable := by
  have hreads : readsOf selectAll.select.toSelect = [(.single "t", none)] := rfl
  refine ⟨selectAll_sends, fun read hread => ?_⟩
  rw [hreads, List.mem_singleton] at hread
  rw [hread]
  rfl

/-- Through a pool without pages every scan comes to its end. -/
theorem heapScan_newPool {relOid : Oid} {rel : Relation} {db : Database EphemeralStorage}
    (hsane : Sane (fun _ => True) relOid rel db) (hpool : db.cache.disk.pool = BufferPool.new 1024)
    (hsize : rel.pages.length ≤ 1024) (snapshot : Option Snapshot) :
    ∃ found db', heapScanWithOptionalSnapshot relOid snapshot db = .ok found db' := by
  obtain ⟨_, p, _, hsaturated⟩ | ⟨disk, hscan, _⟩ := heapScan_sane hsane hsize snapshot
  · obtain ⟨i, buf, hslot, _⟩ := hsaturated
    rw [hpool, slotOf_new] at hslot
    cases hslot
  · exact ⟨_, _, hscan⟩

theorem run_selectWork {clauses : Sql.Ast.SelectStatement} {xid : TransactionId}
    {result : SelectResult} {schema : Schema EphemeralStorage}
    (h : executor ⟨[], clauses⟩ (s.txnMgr.getSnapshotForStatement xid) s.schema =
      .ok result schema) :
    run (serverMachine executor) (selectWork ⟨[], clauses⟩ xid) s =
      .ok () (s.setSchema schema) := by
  rw [selectWork, QueryHandlers.effect, run_call_bind]
  simp only [serverMachine, registerCtes, pure_then]
  rw [QueryHandlers.effect, run_call_bind]
  simp only [serverMachine, answered, onSchema, within, h]
  rfl

/-- The select returns if the scan does. -/
theorem selectAll_returns {schema : Schema EphemeralStorage} {snapshot : Snapshot}
    {found : List Row} {db : Database EphemeralStorage}
    (hcatalog : schema.catalog = tableShared.catalog)
    (hscan : heapScanWithOptionalSnapshot ⟨1⟩ (some snapshot) ⟨schema.cache, WAL.new 8192⟩ =
      .ok found db) :
    ∃ result, selectExecutor inOrder 1 ⟨[], selectAll.select.toSelect⟩ snapshot schema =
      .ok result { schema with cache := db.cache } := by
  let resolve : Sql.Ast.ObjectName → Option Sql.Ast.Expr → Proc (Database EphemeralStorage) Table :=
    resolveTable Sql.Ast.Expr schema.catalog 1 (some snapshot)
  have hresolve : resolve (.single "t") none ⟨schema.cache, WAL.new 8192⟩ =
      .ok ⟨textColumn, found⟩ db := by
    simp only [resolve, hcatalog]
    change (heapScanWithOptionalSnapshot ⟨1⟩ (some snapshot) >>= fun rows =>
      pure (⟨textColumn, rows⟩ : Table)) _ = _
    rw [bind_ok hscan]
    rfl
  have htable : resolveTableRef inOrder resolve .new none (.table (.single "t"))
      ⟨schema.cache, WAL.new 8192⟩ = .ok ((⟨textColumn, found⟩ : Table).context, found) db := by
    rw [resolveTableRef, bind_ok hresolve]
    rfl
  let fromTable : Sql.Ast.FromClause Sql.Ast.Expr Sql.Ast.SelectStatement :=
    ⟨[⟨.table (.single "t"), none, .inner, .none⟩]⟩
  have hread : readFrom inOrder resolve [.star] none (some fromTable)
      ⟨schema.cache, WAL.new 8192⟩ = .ok ((⟨textColumn, found⟩ : Table).context, found) db := by
    rw [readFrom, executeFrom, bind_ok htable]
    rfl
  have hselect : executeSelect inOrder resolve selectAll.select.toSelect
      ⟨schema.cache, WAL.new 8192⟩ =
        .ok (applyClauses inOrder (⟨textColumn, found⟩ : Table).context found
          selectAll.select.toSelect) db := by
    change executeSelect inOrder resolve
      (.mk .all [.star] (some fromTable) none [] none [] none none [] []) _ = _
    rw [executeSelect_eq, bind_ok hread]
    rfl
  have hschema : selectExecutor inOrder 1 ⟨[], selectAll.select.toSelect⟩ snapshot schema = _ :=
    (bind_ok (read_apply Schema.catalog schema)).trans (within_ok hselect)
  exact ⟨_, hschema⟩

end OneRow

end PostgressRs.Server.InsertedRows
