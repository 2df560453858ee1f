import PostgressRs.Executor.IndexScan
import PostgressRs.Executor.UngroupedAggregates
import PostgressRs.Server.DmlRows

/-!
When the indexes that statements register are not seen by a select.
-/

namespace PostgressRs.Server.IndexedQueries

open PostgressRs.BufferCache.PinnedPool
open PostgressRs.Executor.GroupPartition (inOrder)
open PostgressRs.Executor.HeapAccess
open PostgressRs.Executor.HeapInvariant
open PostgressRs.Executor.HeapSteps
open PostgressRs.Executor.IndexScan
open PostgressRs.Executor.InsertComplete
open PostgressRs.Executor.PooledScan
open PostgressRs.Executor.RelationIsolation hiding twoTables
open PostgressRs.Executor.SelectExecutor hiding Table
open PostgressRs.Executor.UngroupedAggregates (fromTable plainSelect)
open PostgressRs.Executor.UpdateConservation
open PostgressRs.Lib.Effects
open PostgressRs.Lib.Effects.Program
open PostgressRs.Lib.Procedure hiding ofExcept orPanic
open PostgressRs.Lib.Transitions
open PostgressRs.Lib.Utf8
open PostgressRs.RelationCatalog
open PostgressRs.Server.Connections (noRows)
open PostgressRs.Server.DmlRows
open PostgressRs.Server.HandlerEffects
open PostgressRs.Server.Queries (Query Statement TextFormat)
open PostgressRs.Server.QueryHandlers
open PostgressRs.Sql.Ast (ObjectName SelectStatement)
open PostgressRs.Storage.PageStore
open PostgressRs.Txn.TransactionTable
open PostgressRs.Types
open PostgressRs.Wal.LogRecord
open PostgressRs.Wal.WriteAheadLog

section Lookups

variable (ε : Type) [TextFormat ε]

def withoutIndexes (self : Catalog) : Catalog := { self with indexes := [] }

/-- The relation and the column that the indexes are searched for before a table is read. -/
def lookedUp (self : Catalog) (read : ObjectName × Option Sql.Ast.Expr) : Option (Oid × String) :=
  (findRelation ε ⟨read.1.parts⟩ (listRelations self)).bind fun rel =>
    (comparedColumn ε read.2).map fun compared => (rel.relOid, compared.1)

/-- All that a select searches the indexes for. -/
def lookups (self : Catalog) (select : SelectStatement) : List (Oid × String) :=
  (readsOf select).filterMap (lookedUp ε self)

/-- The indexes of these columns have no root page. -/
def Unused (looked : List (Oid × String)) (indexes : List IndexInfo) : Prop :=
  ∀ info ∈ indexes, (info.relOid, info.columnName) ∈ looked → info.rootPage = ⟨0⟩

variable {ε}

theorem chosenIndex_of_unused {self : Catalog} {looked : List (Oid × String)}
    (h : Unused looked self.indexes) {relOid : Oid} {whereClause : Option Sql.Ast.Expr}
    (hlooked : ∀ compared, comparedColumn ε whereClause = some compared →
      (relOid, compared.1) ∈ looked) :
    chosenIndex ε self relOid whereClause = none := by
  rw [chosenIndex]
  cases hcompared : comparedColumn ε whereClause with
  | none => rfl
  | some compared =>
      obtain ⟨colUpper, col, value⟩ := compared
      change ((findIndex self relOid colUpper).bind fun info =>
        if info.rootPage = ⟨0⟩ then none else pure (info, col, value)) = none
      cases hfind : findIndex self relOid colUpper with
      | none => rfl
      | some info =>
          rw [findIndex] at hfind
          have hmem := List.mem_of_find?_eq_some hfind
          have hinfo := List.find?_some hfind
          rw [decide_eq_true_eq] at hinfo
          have hroot := h info hmem (by
            rw [hinfo.1, hinfo.2]
            exact hlooked _ hcompared)
          exact if_pos hroot

variable [Bincode] {σ : Type} [StorageTrait σ]

/-- Indexes without pages do not change how tables are read. -/
theorem agreeOn_withoutIndexes {self : Catalog} {select : SelectStatement}
    (h : Unused (lookups ε self select) self.indexes) (stack : Nat)
    (snapshot : Option Snapshot) :
    AgreeOn (resolveTable ε self stack snapshot : _ → _ → Proc (Database σ) _)
      (resolveTable ε (withoutIndexes self) stack snapshot) (readsOf select) := by
  intro read hread
  have hrelations : listRelations (withoutIndexes self) = listRelations self := rfl
  rw [resolveTable, resolveTable, hrelations]
  cases hrel : findRelation ε ⟨read.1.parts⟩ (listRelations self) with
  | none => rfl
  | some rel =>
      have hnone : Unused (lookups ε self select) (withoutIndexes self).indexes :=
        fun _ hmem => absurd hmem List.not_mem_nil
      have hlooked : ∀ compared, comparedColumn ε read.2 = some compared →
          (rel.relOid, compared.1) ∈ lookups ε self select := by
        intro compared hcompared
        apply List.mem_filterMap.mpr
        refine ⟨read, hread, ?_⟩
        rw [lookedUp, hrel, hcompared]
        rfl
      simp only [chosenIndex_of_unused h hlooked, chosenIndex_of_unused hnone hlooked]

end Lookups

section Effects

variable {κ σ : Type}

/-- The effects that leave the registered indexes as they are. -/
def KeepsIndexes : ServerOp κ → Prop
  | .registerIndex _ => False
  | .executeSelect _ _ => False
  | _ => True

theorem keepsIndexes_dml : AllowsDml (KeepsIndexes : ServerOp κ → Prop) where
  listRelations := trivial
  tupleInsert _ _ := trivial
  tupleUpdate _ _ _ _ := trivial
  tupleDelete _ _ := trivial
  send _ := trivial

theorem keepsIndexes_frame : AllowsFrame (KeepsIndexes : ServerOp κ → Prop) where
  begin _ := trivial
  append _ := trivial
  commit _ := trivial
  flush := trivial

def SameIndexes (s s' : Shared σ) : Prop := s'.catalog.indexes = s.catalog.indexes

instance reflSameIndexes : Std.Refl (@SameIndexes σ) where
  refl _ := rfl

instance transSameIndexes : IsTrans (Shared σ) SameIndexes where
  trans _ _ _ h h' := Eq.trans h' h

theorem sameIndexes_onDb {α : Type} (p : Proc (Database σ) α) :
    Keeps SameIndexes (onDb p : Proc (Shared σ) α) :=
  keeps_within (fun _ _ _ => trivial : Keeps (fun _ _ => True) p) fun _ _ _ => rfl

variable [Bincode] [StorageTrait σ]

theorem sameIndexes_machine {executor : SelectExecutor κ σ} (op : ServerOp κ)
    (hop : KeepsIndexes op) (s : Shared σ) (answer : (serverEffects κ).Answer op) (s' : Shared σ)
    (h : serverMachine executor op s = some (answer, s')) : SameIndexes s s' := by
  cases op with
  | registerIndex info => exact hop.elim
  | executeSelect select snapshot => exact hop.elim
  | createRelation rel =>
      cases h
      change (createRelation rel s.schema).2.catalog.indexes = s.catalog.indexes
      rw [createRelation]
      split_ifs <;> rfl
  | append | getRelationState | heapScan | slowScan | tupleInsert | tupleUpdate
      | tupleDelete =>
      exact keeps_answered (sameIndexes_onDb _) h
  | _ =>
      cases h
      rfl

end Effects

section Queries

variable (ε : Type) {κ : Type} [TextFormat ε]

/-- The queries that create tables and indexes, or change rows. -/
def changesTables : Query ε κ → Bool
  | .createTable _ _ | .createIndex _ _ _ | .insert _ _ | .update _ _ _ _ | .delete _ _ => true
  | .statement stmt =>
      match stmt with
      | .createTable _ | .createIndex _ | .insert _ | .update _ | .delete _ => true
      | _ => false
  | _ => false

/-- The table and the column of a `CREATE INDEX`. -/
def createdIndex : Query ε κ → Option (String × String)
  | .createIndex _ table column => some (table, column)
  | .statement (.createIndex create) => some (create.table.join, indexColumn create)
  | _ => none

/-- The relation and the column that a query registers an index for. -/
def indexedColumn (self : Catalog) (query : Query ε κ) : Option (Oid × String) :=
  (createdIndex ε query).bind fun created =>
    ((listRelations self).find? fun rel => rel.name = created.1).map fun rel =>
      (rel.relOid, TextFormat.toUppercase ε created.2)

/-- The query registers no index with a root page for one of the columns. -/
def Spares (looked : List (Oid × String)) (self : Catalog) (query : Query ε κ) : Prop :=
  ∀ column, indexedColumn ε self query = some column → column ∈ looked → self.nextOid = 0

variable {ε}

theorem performs_dmlQuery (cur : Option TransactionId) {work : TransactionId → ServerProgram κ Unit}
    (h : ∀ xid, Performs KeepsIndexes (work xid)) :
    Performs KeepsIndexes (inTransaction cur work) :=
  performs_inTransaction keepsIndexes_frame cur h fun _ => trivial

theorem performs_createTable (name tag : String) (columns : List (String × Oid))
    (status : Protocol.Backend.TransactionStatus) (cur : Option TransactionId) :
    Performs KeepsIndexes (do
      executeCreateTable name columns
      complete (.ok ()) tag status cur : ServerProgram κ (Option TransactionId)) :=
  performs_bind (performs_executeCreateTable (fun _ => trivial) name columns) fun _ =>
    performs_complete keepsIndexes_dml _ _ _ _

/-- What a query does not register is what it was. -/
theorem performs_keepsIndexes {query : Query ε κ} (hchanges : changesTables ε query = true)
    (hnone : createdIndex ε query = none) (cur : Option TransactionId) :
    Performs KeepsIndexes (handleQuery query cur) := by
  cases query with
  | createTable name columns => exact performs_createTable name _ columns _ cur
  | createIndex name table column => cases hnone
  | insert table values =>
      exact performs_dmlQuery cur fun _ => performs_insertWork keepsIndexes_dml table values
  | update table column value whereClause =>
      exact performs_dmlQuery cur fun _ => performs_filteredWork keepsIndexes_dml whereClause
        fun filter => performs_updateWork keepsIndexes_dml table value filter
  | delete table whereClause =>
      exact performs_dmlQuery cur fun _ => performs_filteredWork keepsIndexes_dml whereClause
        fun filter => performs_deleteWork keepsIndexes_dml table filter
  | statement stmt =>
      cases stmt with
      | insert insert =>
          exact performs_dmlQuery cur fun _ => performs_insertStatementWork keepsIndexes_dml insert
      | update update =>
          exact performs_dmlQuery cur fun _ => performs_updateStatementWork keepsIndexes_dml update
      | delete delete =>
          exact performs_dmlQuery cur fun _ => performs_deleteStatementWork keepsIndexes_dml delete
      | createTable create => exact performs_createTable _ _ _ _ cur
      | createIndex create => cases hnone
      | _ => cases hchanges
  | _ => cases hchanges

/-- The query of a `CREATE INDEX`, in either syntax. -/
theorem handleQuery_createdIndex {query : Query ε κ} {table column : String}
    (h : createdIndex ε query = some (table, column)) (cur : Option TransactionId) :
    ∃ tag status, handleQuery query cur = (do
      let result ← executeCreateIndex ε table column
      complete result tag status cur : ServerProgram κ (Option TransactionId)) := by
  cases query with
  | createIndex name table column =>
      cases h
      exact ⟨_, _, rfl⟩
  | statement stmt =>
      cases stmt with
      | createIndex create =>
          cases h
          exact ⟨_, _, rfl⟩
      | _ => cases h
  | _ => cases h

end Queries

section Runs

variable (ε : Type) {κ σ : Type} [TextFormat ε] [Bincode] [StorageTrait σ]

/-- A connection's query that is handled to its end. -/
def QueryStep (executor : SelectExecutor κ σ) (s : Shared σ × Option TransactionId)
    (query : Query ε κ) (s' : Shared σ × Option TransactionId) : Prop :=
  changesTables ε query = true ∧
    run (serverMachine executor) (handleQuery query s.2) s.1 = .ok s'.2 s'.1

variable {ε} {executor : SelectExecutor κ σ}

theorem executeCreateIndex_indexes {table column : String} {s s' : Shared σ}
    {result : Except String Unit}
    (h : run (serverMachine executor) (executeCreateIndex ε table column) s = .ok result s') :
    s'.catalog.indexes = s.catalog.indexes ∨
      ∃ rel indexOid, (listRelations s.catalog).find? (fun rel => rel.name = table) = some rel ∧
        s'.catalog.indexes = s.catalog.indexes ++
          [⟨indexOid, rel.relOid, TextFormat.toUppercase ε column, ⟨s.catalog.nextOid⟩⟩] := by
  rw [executeCreateIndex, QueryHandlers.effect, run_call_bind] at h
  simp only [serverMachine] at h
  cases hfind : (listRelations s.catalog).find? fun rel => decide (rel.name = table) with
  | none =>
      rw [hfind] at h
      cases h
      exact .inl rfl
  | some rel =>
      rw [hfind] at h
      cases h
      exact .inr ⟨rel, _, rfl, rfl⟩

theorem sameIndexes_of_performs {α : Type} {p : ServerProgram κ α}
    (h : Performs KeepsIndexes p) {s s' : Shared σ} {a : α}
    (hrun : run (serverMachine executor) p s = .ok a s') : SameIndexes s s' := by
  apply h.keeps sameIndexes_machine s s'
  rw [hrun]
  rfl

/-- A query registers at most the index that it names, with the next oid for its root page. -/
theorem queryStep_indexes {s s' : Shared σ × Option TransactionId} {query : Query ε κ}
    (hstep : QueryStep ε executor s query s') :
    SameIndexes s.1 s'.1 ∨
      ∃ column indexOid, indexedColumn ε s.1.catalog query = some column ∧
        s'.1.catalog.indexes = s.1.catalog.indexes ++
          [⟨indexOid, column.1, column.2, ⟨s.1.catalog.nextOid⟩⟩] := by
  obtain ⟨hchanges, hrun⟩ := hstep
  cases hcreated : createdIndex ε query with
  | none => exact .inl (sameIndexes_of_performs (performs_keepsIndexes hchanges hcreated _) hrun)
  | some created =>
      obtain ⟨table, column⟩ := created
      obtain ⟨tag, status, hquery⟩ := handleQuery_createdIndex hcreated s.2
      rw [hquery, run_bind, bind_eq_ok] at hrun
      obtain ⟨result, t, hcreate, hcomplete⟩ := hrun
      have hsame : SameIndexes t s'.1 :=
        sameIndexes_of_performs (performs_complete keepsIndexes_dml _ _ _ _) hcomplete
      rcases executeCreateIndex_indexes hcreate with hkept | ⟨rel, indexOid, hrel, hregistered⟩
      · exact .inl (Eq.trans hsame hkept)
      · refine .inr ⟨(rel.relOid, TextFormat.toUppercase ε column), indexOid, ?_,
          Eq.trans hsame hregistered⟩
        rw [indexedColumn, hcreated, Option.bind_some, hrel]
        rfl

theorem unused_step {looked : List (Oid × String)} {s s' : Shared σ × Option TransactionId}
    {query : Query ε κ} (h : Unused looked s.1.catalog.indexes)
    (hspares : Spares ε looked s.1.catalog query) (hstep : QueryStep ε executor s query s') :
    Unused looked s'.1.catalog.indexes := by
  rcases queryStep_indexes hstep with hsame | ⟨column, indexOid, hcolumn, hregistered⟩
  · rw [hsame]
    exact h
  · rw [hregistered]
    intro info hinfo hlooked
    rcases List.mem_append.mp hinfo with hold | hnew
    · exact h info hold hlooked
    · rw [List.mem_singleton] at hnew
      subst hnew
      exact congrArg PageId.mk (hspares column hcolumn hlooked)

variable {order : Executor.Grouping.Iteration} [Executor.Evaluation.Scalars]

/-- Nothing fills the indexes that are registered, so that a lookup in one misses rows.  A select
is answered as without indexes as long as no index was created on a column that it searches. -/
theorem index_unobserved {s t : Shared σ × Option TransactionId}
    {trace : List (Transition (Shared σ × Option TransactionId) (Query ε κ))}
    (hrun : Run (QueryStep ε executor) s trace t) (hnone : s.1.catalog.indexes = [])
    (select : SelectStatement)
    (hspares : ∀ tr ∈ trace,
      Spares ε (lookups ε t.1.catalog select) tr.source.1.catalog tr.label)
    (stack : Nat) (snapshot : Option Snapshot) :
    Executor.SelectExecutor.executeSelect order
        (resolveTable ε t.1.catalog stack snapshot) select t.1.db =
      Executor.SelectExecutor.executeSelect order
        (resolveTable ε (withoutIndexes t.1.catalog) stack snapshot) select t.1.db := by
  have hunused : Unused (lookups ε t.1.catalog select) t.1.catalog.indexes := by
    refine (hrun.invariant (fun s => Unused (lookups ε t.1.catalog select) s.1.catalog.indexes)
      (fun s query => Spares ε (lookups ε t.1.catalog select) s.1.catalog query) ?_ ?_ hspares).1
    · intro s query s' hs hq hstep
      exact unused_step hs hq hstep
    · rw [hnone]
      exact fun _ hmem => absurd hmem List.not_mem_nil
  rw [executeSelect_congr select (agreeOn_withoutIndexes hunused stack snapshot)]

end Runs

section OneRow

attribute [local instance] Executor.Evaluation.wholeNumbers

variable {db : Database EphemeralStorage} {rel : Relation}

theorem FirstRow.state (h : FirstRow db rel) :
    (tupleInsert ⟨1⟩ (["a"].map asBytes) (freshDatabase [emptyTable])).state? = some db := by
  rw [h.inserted]
  rfl

/-- The insert of the first row writes none of the pages from 3 on. -/
theorem readPage_firstRow (h : FirstRow db rel) {p : PageId} (hp : p ≠ ⟨1⟩) (hp' : p ≠ ⟨2⟩) :
    readPage db.cache.disk.storage p = .ok zeroPage := by
  have hframe := (inserted_frame (tupleInsert_state (FirstRow.state h))).2 p
  apply hframe
  rintro rel' hrel' (hopen | ⟨-, hnext⟩)
  · cases hrel'
    exact hp hopen
  · cases hrel'
    cases hnext
    exact hp' rfl

theorem heapScan_firstRow (h : FirstRow db rel) :
    ∃ tid db', heapScanWithOptionalSnapshot ⟨1⟩ none db = .ok [(tid, ["a"])] db' := by
  have hrel : (freshDatabase [emptyTable]).cache.rels.lookup ⟨1⟩ = some emptyTable := rfl
  have hwal : Ready (freshDatabase [emptyTable]).wal (0 + 1) := ready_new (by decide) (by decide)
  obtain ⟨db₁, _, hinsert, hfilled, -⟩ :=
    first_insert hrel rfl rfl asBytes_a (by decide) (by decide) (by decide) hwal
  rw [h.inserted] at hinsert
  cases hinsert
  have hpool := (inserted_grows List.Pairwise.nil (tupleInsert_state (FirstRow.state h)) hrel).1
  have hnone (p : PageId) : slotOf db.cache.disk.pool p = none := by
    rw [hpool]
    exact slotOf_new 1024 p
  have hsize : rel.pages.length ≤ 1024 := by
    rw [h.pages_eq]
    decide
  have hviews : scanRows (pooledPage db.cache.disk) rel.tupleDesc maxSnapshot rel.pages =
      scanRows (pageOf db.cache.disk.storage) rel.tupleDesc maxSnapshot rel.pages := by
    apply scanRows_congr
    intro p _
    rw [pooledPage_of_unmapped (hnone p)]
  obtain ⟨rows, hscan, hrows⟩ := hfilled.slowScan
  rw [slowScan_sane h.sane] at hscan
  cases hscan
  rcases heapScan_sane h.sane hsize none with ⟨-, p, -, i, buf, hslot, -⟩ | ⟨disk, hok, -⟩
  · rw [hnone p] at hslot
    cases hslot
  · rw [Option.getD_none, hviews] at hok
    obtain ⟨⟨tid, fields⟩, hrow, rfl⟩ := List.map_eq_singleton_iff.mp hrows
    rw [hrow] at hok
    exact ⟨tid, _, hok⟩

/-- `SELECT * FROM t WHERE v = 'a'`. -/
def selectA : SelectStatement :=
  plainSelect .all [.star] fromTable
    (some (.binaryOp (.identifier "v") .equals (.literal (.string "a")))) [] []

theorem executeSelect_selectA {resolve : ObjectName → Option Sql.Ast.Expr →
      Proc (Database EphemeralStorage) Executor.SelectExecutor.Table}
    {table : Executor.SelectExecutor.Table} {db db' : Database EphemeralStorage}
    (h : resolve (.single "t")
      (some (.binaryOp (.identifier "v") .equals (.literal (.string "a")))) db = .ok table db') :
    executeSelect inOrder resolve selectA db =
      .ok (applyClauses inOrder table.context table.rows selectA) db' := by
  rw [selectA, plainSelect, executeSelect_eq]
  have hread : readFrom inOrder resolve [.star]
      (some (.binaryOp (.identifier "v") .equals (.literal (.string "a")))) fromTable db =
        .ok (table.context, table.rows) db' := by
    have htable : resolveTableRef inOrder resolve ExecContext.new
        (some (.binaryOp (.identifier "v") .equals (.literal (.string "a"))))
        (.table (.single "t")) db = .ok (table.context, table.rows) db' := by
      rw [resolveTableRef, bind_ok h]
      rfl
    change executeFrom inOrder resolve _ [⟨.table (.single "t"), none, .inner, .none⟩] db = _
    rw [executeFrom, bind_ok htable]
    rfl
  rw [bind_ok hread]
  rfl

/-- The server with the row and an index on a column. -/
def indexedShared (db : Database EphemeralStorage) (column : String) :
    Shared EphemeralStorage where
  catalog :=
    { tableShared.catalog with
      indexes := [⟨⟨10001⟩, ⟨1⟩, column, ⟨10000⟩⟩]
      nextOid := 10002 }
  db := db
  txnMgr := tableShared.txnMgr

/-- `INSERT INTO t VALUES ('a')` and `CREATE INDEX i ON t (column)`. -/
def insertAndIndex (db : Database EphemeralStorage) (column : String) :
    List (Transition (Shared EphemeralStorage × Option TransactionId) (Query Empty Unit)) :=
  [⟨(tableShared, some ⟨1⟩), .statement ((insertRows []).statement Unit),
      ({ tableShared with db := db }, some ⟨1⟩)⟩,
    ⟨({ tableShared with db := db }, some ⟨1⟩), .createIndex "i" "t" column,
      (indexedShared db (TextFormat.toUppercase Empty column), some ⟨1⟩)⟩]

theorem run_insertAndIndex
    (hinsert : run (serverMachine noRows)
      (handleStatement ((insertRows []).statement Unit) (some ⟨1⟩)) tableShared =
        .ok (some ⟨1⟩) { tableShared with db := db }) (column : String) :
    Run (QueryStep Empty noRows) (tableShared, some ⟨1⟩) (insertAndIndex db column)
      (indexedShared db (TextFormat.toUppercase Empty column), some ⟨1⟩) :=
  Run.cons ⟨rfl, hinsert⟩ (Run.cons ⟨rfl, rfl⟩ (Run.nil _))

theorem executeSelect_scan {tid : ItemPointerData} {db' : Database EphemeralStorage}
    (hscan : heapScanWithOptionalSnapshot ⟨1⟩ none db = .ok [(tid, ["a"])] db')
    (column : String) :
    executeSelect inOrder
        (resolveTable Empty (withoutIndexes (indexedShared db column).catalog) 1 none) selectA db =
      .ok ⟨["v"], [["a"]]⟩ db' := by
  refine @executeSelect_selectA _ ⟨textColumn, [(tid, ["a"])]⟩ _ _ ?_
  change (heapScanWithOptionalSnapshot ⟨1⟩ none >>= fun rows =>
    pure (⟨textColumn, rows⟩ : Executor.SelectExecutor.Table)) db = _
  rw [bind_ok hscan]
  rfl

/-- An index on a column that the select does not search. -/
theorem index_unobserved_other :
    ∃ db db', Run (QueryStep Empty noRows) (tableShared, some ⟨1⟩) (insertAndIndex db "w")
        (indexedShared db "W", some ⟨1⟩) ∧
      executeSelect inOrder (resolveTable Empty (indexedShared db "W").catalog 1 none) selectA db =
        .ok ⟨["v"], [["a"]]⟩ db' := by
  obtain ⟨db, rel, h, hinsert⟩ := insertRows_returns []
  obtain ⟨tid, db', hscan⟩ := heapScan_firstRow h
  have hrun := run_insertAndIndex hinsert "w"
  have hlookups : lookups Empty (indexedShared db "W").catalog selectA = [(⟨1⟩, "V")] := rfl
  have hspares : ∀ tr ∈ insertAndIndex db "w",
      Spares Empty (lookups Empty (indexedShared db "W").catalog selectA) tr.source.1.catalog
        tr.label := by
    intro tr htr column hcolumn hmem
    rw [insertAndIndex, List.mem_cons, List.mem_singleton] at htr
    rcases htr with rfl | rfl
    · cases hcolumn
    · cases hcolumn
      rw [hlookups] at hmem
      exact absurd hmem (by decide)
  refine ⟨db, db', hrun, ?_⟩
  rw [← executeSelect_scan hscan "W"]
  exact index_unobserved hrun rfl selectA hspares 1 none

/-- The index that was created on the column is empty. -/
theorem index_hides_row :
    ∃ db db', Run (QueryStep Empty noRows) (tableShared, some ⟨1⟩) (insertAndIndex db "v")
        (indexedShared db "V", some ⟨1⟩) ∧
      executeSelect inOrder (resolveTable Empty (indexedShared db "V").catalog 1 none) selectA db =
          .ok ⟨["v"], []⟩ db ∧
        executeSelect inOrder
          (resolveTable Empty (withoutIndexes (indexedShared db "V").catalog) 1 none) selectA db =
            .ok ⟨["v"], [["a"]]⟩ db' := by
  obtain ⟨db, rel, h, hinsert⟩ := insertRows_returns []
  obtain ⟨tid, db', hscan⟩ := heapScan_firstRow h
  refine ⟨db, db', run_insertAndIndex hinsert "v", ?_, executeSelect_scan hscan "V"⟩
  have hroot := readPage_firstRow h (show (⟨10000⟩ : PageId) ≠ ⟨1⟩ by decide) (by decide)
  have hlookup := @indexScanLookup_unwritten _ _ _ db ⟨⟨10001⟩, ⟨1⟩, "V", ⟨10000⟩⟩ hroot 0 ⟨1⟩
    none "v" "a"
  refine @executeSelect_selectA _ ⟨textColumn, []⟩ _ _ ?_
  change (indexScanLookup 1 ⟨1⟩ none ⟨⟨10001⟩, ⟨1⟩, "V", ⟨10000⟩⟩ "v" "a" >>= fun rows =>
    pure (⟨textColumn, rows⟩ : Executor.SelectExecutor.Table)) db = _
  rw [bind_ok hlookup]
  rfl

end OneRow

end PostgressRs.Server.IndexedQueries
