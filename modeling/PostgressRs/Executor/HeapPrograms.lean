import PostgressRs.Executor.HeapSteps
import PostgressRs.Lib.Effects

/-!
`tuple_insert`, `tuple_update` and `tuple_delete` of `src/executor/heap.rs` as
sequences of their effects on storage, on the relation's state and on the WAL.
Run on the database they are the functions of `HeapAccess`.
-/

namespace PostgressRs.Executor.HeapPrograms

open PostgressRs.BufferCache.PagePool
open PostgressRs.BufferCache.SharedCache
open PostgressRs.Executor.HeapAccess
open PostgressRs.Lib.ByteBuffer
open PostgressRs.Lib.Effects
open PostgressRs.Lib.Effects.Program
open PostgressRs.Lib.Procedure hiding ofExcept orPanic
open PostgressRs.Storage.PageStore
open PostgressRs.Storage.SlottedPage
open PostgressRs.Types
open PostgressRs.Wal.LogRecord
open PostgressRs.Wal.WriteAheadLog

inductive HeapOp where
  | getRelation (relOid : Oid)
  | readPage (pageId : PageId)
  | writePage (pageId : PageId) (data : Bytes)
  | setRelation (relOid : Oid) (rel : Relation)
  | allocateXid
  | append (record : WALRecord)

abbrev heapEffects : Signature where
  Op := HeapOp
  Answer
    | .getRelation _ => Except String Relation
    | .readPage _ => Except String Bytes
    | .writePage _ _ => Except String Unit
    | .setRelation _ _ => Unit
    | .allocateXid => UInt64
    | .append _ => Except String Nat

section Machine

variable [Bincode] {σ : Type} [StorageTrait σ]

def heapMachine : Machine heapEffects (Database σ)
  | .getRelation relOid, db => answered (onCache (getRelationState relOid)) db
  | .readPage pageId, db => answered (onCache (onDisk (readStorage pageId))) db
  | .writePage pageId data, db => answered (onCache (onDisk (writeStorage pageId data))) db
  | .setRelation relOid rel, db =>
      some ((), { db with cache := { db.cache with rels := db.cache.rels.insert relOid rel } })
  | .allocateXid, db =>
      some (db.wal.currentXid,
        { db with wal := { db.wal with currentXid := db.wal.currentXid + 1 } })
  | .append record, db => answered (onWal (append record)) db

end Machine

section Programs

variable [Bincode]

abbrev HeapProgram := Program heapEffects

def effect (op : HeapOp) : HeapProgram (heapEffects.Answer op) :=
  @call heapEffects op

def relationState (relOid : Oid) : HeapProgram Relation := do
  ofExcept (← effect (.getRelation relOid))

def loadPage (pageId : PageId) : HeapProgram HeapPage := do
  let data ← ofExcept (← effect (.readPage pageId))
  orPanic (HeapPage.deserialize data)

def storePage (pageId : PageId) (page : HeapPage) : HeapProgram Unit := do
  let data ← orPanic page.serialize
  ofExcept (← effect (.writePage pageId data))

def logChange (record : WALRecord) : HeapProgram Nat := do
  ofExcept (← effect (.append record))

def insertPageProgram (rel : Relation) : HeapProgram (Relation × PageId) :=
  match rel.pages.getLast? with
  | none => do
      let newPage : PageId := ⟨1⟩
      storePage newPage HeapPage.new
      pure ({ rel with pages := rel.pages ++ [newPage] }, newPage)
  | some pageId => pure (rel, pageId)

/-- The rest of `tuple_insert` once the page to insert into is chosen. -/
def insertInto (relOid : Oid) (values : List Bytes) (rel : Relation) (pageId : PageId) :
    HeapProgram Unit := do
  let heapPage ← loadPage pageId
  let xid ← effect .allocateXid
  let tup := newTuple values xid
  let encoded ← ofExcept (serializeTuple tup)
  let (heapPage, slot) ← orPanic (heapPage.addTuple encoded)
  match slot with
  | none =>
      let newPageId ← orPanic (nextPageId pageId)
      let (newHeapPage, _) ← orPanic (HeapPage.new.addTuple encoded)
      storePage newPageId newHeapPage
      storePage pageId heapPage
      effect (.setRelation relOid { rel with pages := rel.pages ++ [newPageId] })
      let _ ← logChange (.insert relOid newPageId tup)
      pure ()
  | some _ =>
      storePage pageId heapPage
      effect (.setRelation relOid rel)
      let _ ← logChange (.insert relOid pageId tup)
      pure ()

def insertProgram (relOid : Oid) (values : List Bytes) : HeapProgram Unit := do
  let rel ← relationState relOid
  let (rel, pageId) ← insertPageProgram rel
  insertInto relOid values rel pageId

def updateTupleProgram (relOid : Oid) (pageId : PageId) (heapPage : HeapPage) (slotIdx : Nat)
    (tup : Tuple) (newData : Bytes) : HeapProgram HeapPage := do
  let xid ← effect .allocateXid
  let newTup := { tup with xmin := xid, xmax := 0, data := newData }
  let newEncoded ← ofExcept (serializeTuple newTup)
  let (heapPage, hotSlot) ← orPanic (heapPage.hotUpdate (UInt16.ofNat slotIdx) newEncoded)
  let oldTup := { tup with xmax := xid }
  let oldEncoded ← ofExcept (serializeTuple oldTup)
  let heapPage ← orPanic (replaceTuple heapPage slotIdx oldEncoded)
  match hotSlot with
  | some newSlot =>
      storePage pageId heapPage
      let newBytes ← orPanic heapPage.tuples[newSlot.toNat]?
      let newTup ← ofExcept (deserializeTuple newBytes)
      let _ ← logChange (.update relOid pageId oldTup newTup)
      pure heapPage
  | none =>
      let newEncoded ← ofExcept (serializeTuple newTup)
      let (heapPage, _) ← orPanic (heapPage.addTuple newEncoded)
      storePage pageId heapPage
      let _ ← logChange (.update relOid pageId oldTup newTup)
      pure heapPage

def updateTuplesProgram (relOid : Oid) (pageId : PageId) :
    List (Nat × Tuple × Bytes) → HeapPage → HeapProgram Unit
  | [], _ => pure ()
  | (slotIdx, tup, newData) :: tuples, heapPage => do
      let heapPage ← updateTupleProgram relOid pageId heapPage slotIdx tup newData
      updateTuplesProgram relOid pageId tuples heapPage

def updatePagesProgram (relOid : Oid) (desc : TupleDesc) (columnIdx : Nat) (newValue : Bytes)
    (filter : Option Filter) : List PageId → HeapProgram Nat
  | [] => pure 0
  | pageId :: pageIds => do
      let heapPage ← loadPage pageId
      let tuples := tuplesToUpdate heapPage desc columnIdx newValue filter
      updateTuplesProgram relOid pageId tuples heapPage
      let updated ← updatePagesProgram relOid desc columnIdx newValue filter pageIds
      pure (tuples.length + updated)

def updateProgram (relOid : Oid) (columnIdx : Nat) (newValue : Bytes) (filter : Option Filter) :
    HeapProgram Nat := do
  let rel ← relationState relOid
  updatePagesProgram relOid rel.tupleDesc columnIdx newValue filter rel.pages

def deleteTupleProgram (relOid : Oid) (pageId : PageId) (heapPage : HeapPage) (slotIdx : Nat)
    (tup : Tuple) : HeapProgram HeapPage := do
  let xid ← effect .allocateXid
  let tup := { tup with xmax := xid }
  let encoded ← ofExcept (serializeTuple tup)
  let heapPage ← orPanic (replaceTuple heapPage slotIdx encoded)
  storePage pageId heapPage
  let _ ← logChange (.delete relOid pageId tup)
  pure heapPage

def deleteTuplesProgram (relOid : Oid) (pageId : PageId) :
    List (Nat × Tuple) → HeapPage → HeapProgram Unit
  | [], _ => pure ()
  | (slotIdx, tup) :: tuples, heapPage => do
      let heapPage ← deleteTupleProgram relOid pageId heapPage slotIdx tup
      deleteTuplesProgram relOid pageId tuples heapPage

def deletePagesProgram (relOid : Oid) (desc : TupleDesc) (filter : Option Filter) :
    List PageId → HeapProgram Nat
  | [] => pure 0
  | pageId :: pageIds => do
      let heapPage ← loadPage pageId
      let tuples := matchingTuples heapPage desc filter
      deleteTuplesProgram relOid pageId tuples heapPage
      let deleted ← deletePagesProgram relOid desc filter pageIds
      pure (tuples.length + deleted)

def deleteProgram (relOid : Oid) (filter : Option Filter) : HeapProgram Nat := do
  let rel ← relationState relOid
  deletePagesProgram relOid rel.tupleDesc filter rel.pages

end Programs

section Runs

variable [Bincode] {σ : Type} [StorageTrait σ]

theorem run_relationState (relOid : Oid) :
    (run heapMachine (relationState relOid) : Proc (Database σ) Relation) =
      onCache (getRelationState relOid) := by
  funext db
  rw [relationState, effect, run_call_bind]
  simp only [heapMachine, answered]
  cases onCache (getRelationState relOid) db with
  | ok a s' => rfl
  | err e s' => rfl
  | panic => rfl

theorem run_loadPage (pageId : PageId) :
    (run heapMachine (loadPage pageId) : Proc (Database σ) HeapPage) = readHeapPage pageId := by
  funext db
  rw [loadPage, effect, run_call_bind, readHeapPage, bind_apply]
  simp only [heapMachine, answered]
  cases onCache (onDisk (readStorage pageId)) db with
  | ok a s' => exact congrFun (run_orPanic _ _) s'
  | err e s' => rfl
  | panic => rfl

theorem run_storePage (pageId : PageId) (page : HeapPage) :
    (run heapMachine (storePage pageId page) : Proc (Database σ) Unit) =
      writeHeapPage pageId page := by
  rw [storePage, writeHeapPage, run_bind, run_orPanic]
  congr 1
  funext data db
  rw [effect, run_call_bind]
  simp only [heapMachine, answered]
  cases onCache (onDisk (writeStorage pageId data)) db with
  | ok a s' => rfl
  | err e s' => rfl
  | panic => rfl

theorem run_logChange (record : WALRecord) :
    (run heapMachine (logChange record) : Proc (Database σ) Nat) = onWal (append record) := by
  funext db
  rw [logChange, effect, run_call_bind]
  simp only [heapMachine, answered]
  cases onWal (append record) db with
  | ok a s' => rfl
  | err e s' => rfl
  | panic => rfl

theorem run_allocateXid :
    (run heapMachine (effect .allocateXid) : Proc (Database σ) UInt64) = onWal allocateXid := rfl

theorem run_setRelation (relOid : Oid) (rel : Relation) :
    (run heapMachine (effect (.setRelation relOid rel)) : Proc (Database σ) Unit) =
      onCache (setRelation relOid rel) := rfl

theorem run_insertPage (rel : Relation) :
    (run heapMachine (insertPageProgram rel) : Proc (Database σ) (Relation × PageId)) =
      insertPage rel := by
  unfold insertPageProgram insertPage
  cases rel.pages.getLast? with
  | none =>
      simp only [run_bind, run_storePage, run_pure]
  | some pageId => rfl

/-- `tuple_insert` is its program. -/
theorem run_insert (relOid : Oid) (values : List Bytes) :
    (run heapMachine (insertProgram relOid values) : Proc (Database σ) Unit) =
      tupleInsert relOid values := by
  unfold insertProgram tupleInsert
  rw [run_bind, run_relationState]
  congr 1
  funext rel
  rw [run_bind, run_insertPage]
  congr 1
  funext inserted
  obtain ⟨rel', pageId⟩ := inserted
  simp only [insertInto]
  rw [run_bind, run_loadPage]
  congr 1
  funext heapPage
  rw [run_bind, run_allocateXid]
  congr 1
  funext xid
  rw [run_bind, run_ofExcept]
  congr 1
  funext encoded
  rw [run_bind, run_orPanic]
  congr 1
  funext added
  obtain ⟨heapPage', slot⟩ := added
  cases slot with
  | none =>
      simp only [run_bind, run_orPanic, run_storePage, run_setRelation, run_logChange, run_pure]
  | some slot =>
      simp only [run_bind, run_storePage, run_setRelation, run_logChange, run_pure]

theorem run_updateTuple (relOid : Oid) (pageId : PageId) (heapPage : HeapPage) (slotIdx : Nat)
    (tup : Tuple) (newData : Bytes) :
    (run heapMachine (updateTupleProgram relOid pageId heapPage slotIdx tup newData) :
      Proc (Database σ) HeapPage) = updateTuple relOid pageId heapPage slotIdx tup newData := by
  unfold updateTupleProgram updateTuple
  rw [run_bind, run_allocateXid]
  congr 1
  funext xid
  rw [run_bind, run_ofExcept]
  congr 1
  funext newEncoded
  rw [run_bind, run_orPanic]
  congr 1
  funext ⟨heapPage', hotSlot⟩
  simp only [run_bind, run_ofExcept, run_orPanic]
  congr 1
  funext oldEncoded
  congr 1
  funext heapPage''
  cases hotSlot with
  | some newSlot =>
      simp only [run_bind, run_ofExcept, run_orPanic, run_storePage, run_logChange, run_pure]
  | none =>
      simp only [run_bind, run_ofExcept, run_orPanic, run_storePage, run_logChange, run_pure]

theorem run_updateTuples (relOid : Oid) (pageId : PageId) (tuples : List (Nat × Tuple × Bytes))
    (heapPage : HeapPage) :
    (run heapMachine (updateTuplesProgram relOid pageId tuples heapPage) :
      Proc (Database σ) Unit) = updateTuples relOid pageId tuples heapPage := by
  induction tuples generalizing heapPage with
  | nil => rfl
  | cons entry tuples ih =>
      obtain ⟨slotIdx, tup, newData⟩ := entry
      simp only [updateTuplesProgram, updateTuples, run_bind, run_updateTuple, ih]

theorem run_updatePages (relOid : Oid) (desc : TupleDesc) (columnIdx : Nat) (newValue : Bytes)
    (filter : Option Filter) (pageIds : List PageId) :
    (run heapMachine (updatePagesProgram relOid desc columnIdx newValue filter pageIds) :
      Proc (Database σ) Nat) = updatePages relOid desc columnIdx newValue filter pageIds := by
  induction pageIds with
  | nil => rfl
  | cons pageId pageIds ih =>
      simp only [updatePagesProgram, updatePages, run_bind, run_loadPage, run_updateTuples, ih,
        run_pure]

/-- `tuple_update` is its program. -/
theorem run_update (relOid : Oid) (columnIdx : Nat) (newValue : Bytes)
    (filter : Option Filter) :
    (run heapMachine (updateProgram relOid columnIdx newValue filter) : Proc (Database σ) Nat) =
      tupleUpdate relOid columnIdx newValue filter := by
  simp only [updateProgram, tupleUpdate, run_bind, run_relationState, run_updatePages]

theorem run_deleteTuple (relOid : Oid) (pageId : PageId) (heapPage : HeapPage) (slotIdx : Nat)
    (tup : Tuple) :
    (run heapMachine (deleteTupleProgram relOid pageId heapPage slotIdx tup) :
      Proc (Database σ) HeapPage) = deleteTuple relOid pageId heapPage slotIdx tup := by
  simp only [deleteTupleProgram, deleteTuple, run_bind, run_allocateXid, run_ofExcept,
    run_orPanic, run_storePage, run_logChange, run_pure]

theorem run_deleteTuples (relOid : Oid) (pageId : PageId) (tuples : List (Nat × Tuple))
    (heapPage : HeapPage) :
    (run heapMachine (deleteTuplesProgram relOid pageId tuples heapPage) :
      Proc (Database σ) Unit) = deleteTuples relOid pageId tuples heapPage := by
  induction tuples generalizing heapPage with
  | nil => rfl
  | cons entry tuples ih =>
      obtain ⟨slotIdx, tup⟩ := entry
      simp only [deleteTuplesProgram, deleteTuples, run_bind, run_deleteTuple, ih]

theorem run_deletePages (relOid : Oid) (desc : TupleDesc) (filter : Option Filter)
    (pageIds : List PageId) :
    (run heapMachine (deletePagesProgram relOid desc filter pageIds) :
      Proc (Database σ) Nat) = deletePages relOid desc filter pageIds := by
  induction pageIds with
  | nil => rfl
  | cons pageId pageIds ih =>
      simp only [deletePagesProgram, deletePages, run_bind, run_loadPage, run_deleteTuples, ih,
        run_pure]

/-- `tuple_delete` is its program. -/
theorem run_delete (relOid : Oid) (filter : Option Filter) :
    (run heapMachine (deleteProgram relOid filter) : Proc (Database σ) Nat) =
      tupleDelete relOid filter := by
  simp only [deleteProgram, tupleDelete, run_bind, run_relationState, run_deletePages]

end Runs

end PostgressRs.Executor.HeapPrograms
