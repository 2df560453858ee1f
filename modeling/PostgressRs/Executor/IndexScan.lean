import PostgressRs.Btree.PageCodec
import PostgressRs.Executor.IndexAccess
import PostgressRs.Executor.SelectExecutor
import PostgressRs.Server.QueryHandlers

/-!
How a select reads a table: through an index, if the condition compares an indexed column with
a literal (`src/executor/select/context.rs`, `src/executor/btree.rs`, `src/catalog/mod.rs`).
-/

namespace PostgressRs.Executor.IndexScan

open PostgressRs.Btree.IndexPage (BTreePage IndexStore)
open PostgressRs.Btree.PageCodec (fetchPage_ok pageAt_zero)
open PostgressRs.Btree.TreeAccess (btreeSearch fetchForSearch searchPage)
open PostgressRs.BufferCache.SharedCache
open PostgressRs.Executor.Evaluation (literalText)
open PostgressRs.Executor.HeapAccess
open PostgressRs.Executor.IndexAccess
open PostgressRs.Executor.SelectExecutor
open PostgressRs.Lib.ByteBuffer
open PostgressRs.Lib.Procedure
open PostgressRs.Lib.Utf8
open PostgressRs.RelationCatalog
open PostgressRs.Server.Queries (TextFormat)
open PostgressRs.Server.QueryHandlers (findRelation noRelation)
open PostgressRs.Sql.Ast hiding IndexColumn SortDirection
open PostgressRs.Storage.PageStore
open PostgressRs.Storage.SlottedPage
open PostgressRs.Txn.TransactionTable
open PostgressRs.Types
open PostgressRs.Wal.LogRecord

section Keys

inductive SortDirection where
  | asc
  | desc
deriving DecidableEq

structure IndexColumn where
  name : String
  direction : SortDirection
  nullsFirst : Bool

def encodeIndexValue (value : String) (direction : SortDirection) (nullsFirst : Bool) : Bytes :=
  if value = "" ∨ value = "NULL" then [0, if nullsFirst then 1 else 0]
  else
    [1, if direction = .desc then 1 else 0] ++ toLeBytes 4 (asBytes value).length ++ asBytes value

def encodeIndexKey (values : List String) (columns : List IndexColumn) : Bytes :=
  values.zipIdx.flatMap fun (value, i) =>
    let direction := (columns[i]?.map IndexColumn.direction).getD .asc
    let nullsFirst := (columns[i]?.map IndexColumn.nullsFirst).getD false
    encodeIndexValue value direction nullsFirst ++ [0xFF]

def literalToString (lit : Literal) : String := literalText lit

/-- The two sides of `column = literal`, in either order. -/
def equalitySides : Expr → Expr → Option (String × String)
  | .identifier col, .literal lit => some (col, literalToString lit)
  | .literal lit, .identifier col => some (col, literalToString lit)
  | _, _ => none

def extractEquality : Expr → Option (String × String)
  | .binaryOp left op right =>
      match op with
      | .equals => equalitySides left right
      | .and => (extractEquality left).or (extractEquality right)
      | _ => none
  | _ => none

def findIndex (self : Catalog) (relOid : Oid) (columnName : String) : Option IndexInfo :=
  self.indexes.find? fun info => info.relOid = relOid ∧ info.columnName = columnName

end Keys

section Tables

variable (ε : Type) [TextFormat ε]

/-- The column that a condition compares with a literal, as indexes name it, and the literal. -/
def comparedColumn (whereClause : Option Expr) : Option (String × String × String) :=
  (whereClause.bind extractEquality).map fun (col, value) =>
    (TextFormat.toUppercase ε col, col, value)

/-- The index to look a table up with, and the column and the value to look for. -/
def chosenIndex (self : Catalog) (relOid : Oid) (whereClause : Option Expr) :
    Option (IndexInfo × String × String) := do
  let (colUpper, col, value) ← comparedColumn ε whereClause
  let info ← findIndex self relOid colUpper
  if info.rootPage = ⟨0⟩ then none else pure (info, col, value)

variable [Bincode] {σ : Type} [StorageTrait σ]

def onIndex {α : Type} : Proc (IndexStore σ) α → Proc (Database σ) α :=
  within (fun db => ⟨db.cache.disk.storage, []⟩) fun db store =>
    { db with cache := { db.cache with disk := { db.cache.disk with storage := store.storage } } }

def fetchTupleByPointer (relOid : Oid) (pageId : PageId) (offset : UInt16)
    (snapshot : Option Snapshot) : Proc (Database σ) (Option Row) := do
  let rel ← onCache (getRelationState relOid)
  let data ← onCache (onDisk (fetchPageData pageId))
  let page ← orPanic (HeapPage.deserialize data)
  pure (page.tuples[offset.toNat]?.bind
    (slotRow pageId rel.tupleDesc (snapshot.getD maxSnapshot) none offset.toNat))

def fetchHits (relOid : Oid) (snapshot : Option Snapshot) :
    List (Bytes × PageId × UInt16) → Proc (Database σ) (List Row)
  | [] => pure []
  | (_, pageId, offset) :: hits => do
      let row ← fetchTupleByPointer relOid pageId offset snapshot
      let rows ← fetchHits relOid snapshot hits
      pure (row.toList ++ rows)

/-- The depth of the stack bounds how far the search descends. -/
def indexScanLookup (stack : Nat) (relOid : Oid) (snapshot : Option Snapshot) (info : IndexInfo)
    (col value : String) : Proc (Database σ) (List Row) := do
  let scanKey := encodeIndexKey [value] [⟨col, .asc, false⟩]
  let hits ← onIndex (btreeScan stack ⟨scanKey⟩ info.rootPage)
  fetchHits relOid snapshot hits

omit [Bincode] [StorageTrait σ] in
theorem onIndex_ok {α : Type} {p : Proc (IndexStore σ) α} {db : Database σ} {a : α}
    (h : p ⟨db.cache.disk.storage, []⟩ = .ok a ⟨db.cache.disk.storage, []⟩) :
    onIndex p db = .ok a db := by
  rw [onIndex, within, h]

/-- A root page that was never written has no entries. -/
theorem indexScanLookup_unwritten {db : Database σ} {info : IndexInfo}
    (h : readPage db.cache.disk.storage info.rootPage = .ok zeroPage) (stack : Nat) (relOid : Oid)
    (snapshot : Option Snapshot) (col value : String) :
    indexScanLookup (stack + 1) relOid snapshot info col value db = .ok [] db := by
  have hfetch : fetchForSearch info.rootPage (⟨db.cache.disk.storage, []⟩ : IndexStore σ) =
      .ok (BTreePage.new .leaf info.rootPage) ⟨db.cache.disk.storage, []⟩ := by
    rw [fetchForSearch, fetchPage_ok (s := ⟨db.cache.disk.storage, []⟩) (pageAt_zero h)]
  have hsearch (key : Bytes) : btreeSearch (stack + 1) info.rootPage key
      (⟨db.cache.disk.storage, []⟩ : IndexStore σ) = .ok [] ⟨db.cache.disk.storage, []⟩ := by
    rw [btreeSearch, searchPage, bind_ok hfetch]
    rfl
  have hscan (key : Bytes) : btreeScan (stack + 1) ⟨key⟩ info.rootPage
      (⟨db.cache.disk.storage, []⟩ : IndexStore σ) = .ok [] ⟨db.cache.disk.storage, []⟩ := by
    rw [btreeScan, bind_ok (hsearch key)]
    rfl
  rw [indexScanLookup, bind_ok (onIndex_ok (hscan _))]
  rfl

/-- `resolve_table_ref` of a table. -/
def resolveTable (self : Catalog) (stack : Nat) (snapshot : Option Snapshot) (name : ObjectName)
    (whereClause : Option Expr) : Proc (Database σ) Table :=
  match findRelation ε ⟨name.parts⟩ (listRelations self) with
  | none => fail (noRelation (".".intercalate name.parts))
  | some rel => do
      let rows ←
        match chosenIndex ε self rel.relOid whereClause with
        | some (info, col, value) => indexScanLookup stack rel.relOid snapshot info col value
        | none => heapScanWithOptionalSnapshot rel.relOid snapshot
      pure ⟨rel.tupleDesc, rows⟩

end Tables

section Reads

mutual

/-- The tables that a select reads, each with the condition it is read under. -/
def readsOf : SelectStatement → List (ObjectName × Option Expr)
  | .mk _ _ fromClause whereClause _ _ _ _ _ _ operations =>
      (match fromClause with
        | some ⟨joins⟩ => fromReads whereClause joins
        | none => []) ++ operationReads operations

def fromReads (whereClause : Option Expr) :
    List (Join Expr SelectStatement) → List (ObjectName × Option Expr)
  | [] => []
  | ⟨table, _, _, _⟩ :: joins => tableReads whereClause table ++ joinReads joins

def joinReads : List (Join Expr SelectStatement) → List (ObjectName × Option Expr)
  | [] => []
  | ⟨table, _, _, _⟩ :: joins => tableReads none table ++ joinReads joins

def tableReads (whereClause : Option Expr) :
    TableRef SelectStatement → List (ObjectName × Option Expr)
  | .table name => [(name, whereClause)]
  | .subquery query => readsOf query

def operationReads : List (SetOperation SelectStatement) → List (ObjectName × Option Expr)
  | [] => []
  | ⟨_, select⟩ :: operations => readsOf select ++ operationReads operations

end

variable [Evaluation.Scalars] {order : Grouping.Iteration} {m : Type → Type} [Monad m]
  {resolve resolve' : ObjectName → Option Expr → m Table}

/-- Two ways to resolve tables agree on the tables that are read. -/
def AgreeOn (resolve resolve' : ObjectName → Option Expr → m Table)
    (reads : List (ObjectName × Option Expr)) : Prop :=
  ∀ read ∈ reads, resolve read.1 read.2 = resolve' read.1 read.2

omit [Evaluation.Scalars] [Monad m] in
theorem agreeOn_append {reads reads' : List (ObjectName × Option Expr)} :
    AgreeOn resolve resolve' (reads ++ reads') ↔
      AgreeOn resolve resolve' reads ∧ AgreeOn resolve resolve' reads' :=
  List.forall_mem_append

mutual

theorem executeSelect_congr (select : SelectStatement)
    (h : AgreeOn resolve resolve' (readsOf select)) :
    executeSelect order resolve select = executeSelect order resolve' select := by
  cases select with
  | mk distinctClause selectList fromClause whereClause groupBy having orderBy limit offset locking
      operations =>
      unfold readsOf at h
      rw [agreeOn_append] at h
      rw [executeSelect_eq, executeSelect_eq]
      have hfrom : readFrom order resolve selectList whereClause fromClause =
          readFrom order resolve' selectList whereClause fromClause := by
        cases fromClause with
        | none => rfl
        | some clause =>
            obtain ⟨joins⟩ := clause
            exact executeFrom_congr whereClause joins h.1
      rw [hfrom]
      congr 1
      funext read
      exact applySetOperations_congr _ operations h.2

theorem executeFrom_congr (whereClause : Option Expr) (joins : List (Join Expr SelectStatement))
    (h : AgreeOn resolve resolve' (fromReads whereClause joins)) :
    executeFrom order resolve whereClause joins = executeFrom order resolve' whereClause joins := by
  cases joins with
  | nil => rw [executeFrom, executeFrom]
  | cons join joins =>
      obtain ⟨table, aliasName, joinType, constraint⟩ := join
      rw [fromReads, agreeOn_append] at h
      rw [executeFrom, executeFrom, resolveTableRef_congr _ whereClause table h.1]
      congr 1
      funext read
      exact executeJoins_congr _ _ joins h.2

theorem executeJoins_congr (context : ExecContext) (rows : List Row)
    (joins : List (Join Expr SelectStatement)) (h : AgreeOn resolve resolve' (joinReads joins)) :
    executeJoins order resolve context rows joins =
      executeJoins order resolve' context rows joins := by
  cases joins with
  | nil => rw [executeJoins, executeJoins]
  | cons join joins =>
      obtain ⟨table, aliasName, joinType, constraint⟩ := join
      rw [joinReads, agreeOn_append] at h
      rw [executeJoins, executeJoins, resolveTableRef_congr _ none table h.1]
      congr 1
      funext read
      exact executeJoins_congr _ _ joins h.2

theorem resolveTableRef_congr (context : ExecContext) (whereClause : Option Expr)
    (table : TableRef SelectStatement)
    (h : AgreeOn resolve resolve' (tableReads whereClause table)) :
    resolveTableRef order resolve context whereClause table =
      resolveTableRef order resolve' context whereClause table := by
  cases table with
  | table name =>
      rw [tableReads] at h
      rw [resolveTableRef, resolveTableRef, h _ (List.mem_singleton_self _)]
  | subquery query =>
      rw [tableReads] at h
      rw [resolveTableRef, resolveTableRef, executeSelect_congr query h]

theorem applySetOperations_congr (result : Server.Queries.SelectResult)
    (operations : List (SetOperation SelectStatement))
    (h : AgreeOn resolve resolve' (operationReads operations)) :
    applySetOperations order resolve result operations =
      applySetOperations order resolve' result operations := by
  cases operations with
  | nil => rw [applySetOperations, applySetOperations]
  | cons operation operations =>
      obtain ⟨operator, select⟩ := operation
      rw [operationReads, agreeOn_append] at h
      rw [applySetOperations, applySetOperations, executeSelect_congr select h.1]
      congr 1
      funext right
      exact applySetOperations_congr _ operations h.2

end

end Reads

end PostgressRs.Executor.IndexScan
