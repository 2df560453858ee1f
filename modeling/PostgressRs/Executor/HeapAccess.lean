import Mathlib.Data.List.Infix
import PostgressRs.BufferCache.SharedCache
import PostgressRs.Lib.Utf8
import PostgressRs.Storage.SlottedPage
import PostgressRs.Txn.TransactionTable
import PostgressRs.Wal.WriteAheadLog

/-!
Heap access methods (`src/executor/heap.rs`) over the shared cache and the WAL.
-/

namespace PostgressRs.Executor.HeapAccess

open PostgressRs.BufferCache.PagePool
open PostgressRs.BufferCache.SharedCache
open PostgressRs.Lib.ByteBuffer
open PostgressRs.Lib.Procedure
open PostgressRs.Lib.Utf8
open PostgressRs.Storage.PageStore
open PostgressRs.Storage.SlottedPage
open PostgressRs.Txn.TransactionTable
open PostgressRs.Types
open PostgressRs.Wal.LogRecord
open PostgressRs.Wal.WriteAheadLog

/-- The cache and the WAL that every heap function is given. -/
structure Database (σ : Type) where
  cache : SharedBufferCache σ
  wal : WAL

section Tuples

def maxSnapshot : Snapshot where
  xid := ⟨0xFFFFFFFF⟩
  activeXids := []

def isVisible (tup : Tuple) (snapshot : Snapshot) : Bool :=
  if tup.xmin = 0 then false
  else
    let xmin : TransactionId := ⟨tup.xmin.toUInt32⟩
    if ¬snapshot.activeXids.contains xmin ∧ xmin.val < snapshot.xid.val then
      if tup.xmax ≠ 0 then
        let xmax : TransactionId := ⟨tup.xmax.toUInt32⟩
        !(!snapshot.activeXids.contains xmax && decide (xmax.val < snapshot.xid.val))
      else true
    else false

/-- The values of the fields that are left, from the data that is left. -/
def decodeFields : Nat → Nat → Bytes → List String
  | 0, _, _ => []
  | fields + 1, slots, data =>
      if 0 < slots ∧ data ≠ [] then
        let value := (fromUtf8 (data.takeWhile (· ≠ 0))).getD ""
        match data.dropWhile (· ≠ 0) with
        | [] => value :: List.replicate fields ""
        | _ :: rest => value :: decodeFields fields (slots - 1) rest
      else "" :: decodeFields fields (slots - 1) data

def decodeTupleValues (tup : Tuple) (desc : TupleDesc) : List String :=
  if tup.data.isEmpty then List.replicate desc.fields.length ""
  else decodeFields desc.fields.length tup.slots.length tup.data

/-- The tuple that `tuple_insert` builds. -/
def newTuple (values : List Bytes) (xid : UInt64) : Tuple where
  slots := (List.range values.length).map fun i => ⟨UInt16.ofNat i⟩
  data := [0].intercalate values
  xmin := xid
  xmax := 0
  cmin := 0
  cmax := 0
  xvac := 0

def buildUpdatedData (oldData : Bytes) (columnIdx : Nat) (newValue : Bytes) : Option Bytes :=
  let parts := oldData.splitOn 0
  if columnIdx < parts.length then some ([0].intercalate (parts.set columnIdx newValue))
  else none

structure Filter where
  column : Nat
  value : Bytes

/-- `slow_scan`: a row that lacks the column passes. -/
def scanFilter (row : List String) : Option Filter → Bool
  | none => true
  | some filter =>
      match row[filter.column]? with
      | some value =>
          let expected := fromUtf8Lossy filter.value
          decide (expected.toList <:+: value.toList) || value = expected
      | none => true

/-- `tuple_update` and `tuple_delete`: a row that lacks the column is skipped. -/
def writeFilter (row : List String) : Option Filter → Bool
  | none => true
  | some filter => row[filter.column]? = some (fromUtf8Lossy filter.value)

end Tuples

section Scans

abbrev Row := ItemPointerData × List String

variable [Bincode]

/-- The row of one slot, if its bytes decode to a visible tuple. -/
def slotRow (pageId : PageId) (desc : TupleDesc) (snapshot : Snapshot) (filter : Option Filter)
    (slotIdx : Nat) (tupleData : Bytes) : Option Row :=
  match deserializeTuple tupleData with
  | .ok tup =>
      if isVisible tup snapshot then
        let row := decodeTupleValues tup desc
        if scanFilter row filter then some (⟨pageId, UInt16.ofNat slotIdx⟩, row) else none
      else none
  | .error _ => none

def pageRows (pageId : PageId) (tuples : List Bytes) (desc : TupleDesc) (snapshot : Snapshot)
    (filter : Option Filter) : List Row :=
  tuples.zipIdx.filterMap fun entry => slotRow pageId desc snapshot filter entry.2 entry.1

variable {σ : Type} [StorageTrait σ]

def onCache {α : Type} : Proc (SharedBufferCache σ) α → Proc (Database σ) α :=
  within Database.cache fun db cache => { db with cache := cache }

def onWal {α : Type} : Proc WAL α → Proc (Database σ) α :=
  within Database.wal fun db wal => { db with wal := wal }

def readHeapPage (pageId : PageId) : Proc (Database σ) HeapPage := do
  let data ← onCache (onDisk (readStorage pageId))
  orPanic (HeapPage.deserialize data)

def writeHeapPage (pageId : PageId) (page : HeapPage) : Proc (Database σ) Unit := do
  let data ← orPanic page.serialize
  onCache (onDisk (writeStorage pageId data))

def scanPages (desc : TupleDesc) (snapshot : Snapshot) (filter : Option Filter) :
    List PageId → Proc (Database σ) (List Row)
  | [] => pure []
  | pageId :: pageIds => do
      let page ← readHeapPage pageId
      let rows ← scanPages desc snapshot filter pageIds
      pure (pageRows pageId page.tuples desc snapshot filter ++ rows)

/-- Reads storage directly. -/
def slowScan (relOid : Oid) (filter : Option Filter) : Proc (Database σ) (List Row) := do
  let rel ← onCache (getRelationState relOid)
  scanPages rel.tupleDesc maxSnapshot filter rel.pages

def scanFetched (desc : TupleDesc) (snapshot : Snapshot) :
    List (PageId × Bytes) → Proc (Database σ) (List Row)
  | [] => pure []
  | (pageId, data) :: pages => do
      let page ← orPanic (HeapPage.deserialize data)
      let rows ← scanFetched desc snapshot pages
      pure (pageRows pageId page.tuples desc snapshot none ++ rows)

/-- Reads pages through the buffer pool. -/
def heapScanWithOptionalSnapshot (relOid : Oid) (snapshot : Option Snapshot) :
    Proc (Database σ) (List Row) := do
  let rel ← onCache (getRelationState relOid)
  let pages ← onCache (onDisk (fetchPagesBatch rel.pages))
  scanFetched rel.tupleDesc (snapshot.getD maxSnapshot) pages

def heapScan (relOid : Oid) : Proc (Database σ) (List Row) :=
  heapScanWithOptionalSnapshot relOid none

end Scans

section Writes

variable [Bincode] {σ : Type} [StorageTrait σ]

/-- `PageId(page_id.0 + 1)`. -/
def nextPageId (pageId : PageId) : Option PageId :=
  (checkedIncr pageId.val).map PageId.mk

/-- The page to insert into.  A relation's first page is always page 1. -/
def insertPage (rel : Relation) : Proc (Database σ) (Relation × PageId) :=
  match rel.pages.getLast? with
  | none => do
      let newPage : PageId := ⟨1⟩
      writeHeapPage newPage HeapPage.new
      pure ({ rel with pages := rel.pages ++ [newPage] }, newPage)
  | some pageId => pure (rel, pageId)

def tupleInsert (relOid : Oid) (values : List Bytes) : Proc (Database σ) Unit := do
  let rel ← onCache (getRelationState relOid)
  let (rel, pageId) ← insertPage rel
  let heapPage ← readHeapPage pageId
  let xid ← onWal allocateXid
  let tup := newTuple values xid
  let encoded ← ofExcept (serializeTuple tup)
  let (heapPage, slot) ← orPanic (heapPage.addTuple encoded)
  match slot with
  | none =>
      let newPageId ← orPanic (nextPageId pageId)
      let (newHeapPage, _) ← orPanic (HeapPage.new.addTuple encoded)
      writeHeapPage newPageId newHeapPage
      writeHeapPage pageId heapPage
      onCache (setRelation relOid { rel with pages := rel.pages ++ [newPageId] })
      let _ ← onWal (append (.insert relOid newPageId tup))
      pure ()
  | some _ =>
      writeHeapPage pageId heapPage
      onCache (setRelation relOid rel)
      let _ ← onWal (append (.insert relOid pageId tup))
      pure ()

/-- The decodable tuples of a page whose row passes the filter. -/
def matchingTuples (page : HeapPage) (desc : TupleDesc) (filter : Option Filter) :
    List (Nat × Tuple) :=
  page.tuples.zipIdx.filterMap fun (tupleData, slotIdx) =>
    match deserializeTuple tupleData with
    | .ok tup =>
        if writeFilter (decodeTupleValues tup desc) filter then some (slotIdx, tup) else none
    | .error _ => none

/-- `heap_page.tuples[slot_idx] = encoded`. -/
def replaceTuple (page : HeapPage) (slotIdx : Nat) (encoded : Bytes) : Option HeapPage :=
  if slotIdx < page.tuples.length then some (page.setTuple slotIdx encoded) else none

/-- Stamps the old version and adds the new one, by a HOT update if the slot is
normal and there is room for a further line pointer. -/
def updateTuple (relOid : Oid) (pageId : PageId) (heapPage : HeapPage) (slotIdx : Nat)
    (tup : Tuple) (newData : Bytes) : Proc (Database σ) HeapPage := do
  let xid ← onWal allocateXid
  let newTup := { tup with xmin := xid, xmax := 0, data := newData }
  let newEncoded ← ofExcept (serializeTuple newTup)
  let (heapPage, hotSlot) ← orPanic (heapPage.hotUpdate (UInt16.ofNat slotIdx) newEncoded)
  let oldTup := { tup with xmax := xid }
  let oldEncoded ← ofExcept (serializeTuple oldTup)
  let heapPage ← orPanic (replaceTuple heapPage slotIdx oldEncoded)
  match hotSlot with
  | some newSlot =>
      writeHeapPage pageId heapPage
      let newBytes ← orPanic heapPage.tuples[newSlot.toNat]?
      let newTup ← ofExcept (deserializeTuple newBytes)
      let _ ← onWal (append (.update relOid pageId oldTup newTup))
      pure heapPage
  | none =>
      let newEncoded ← ofExcept (serializeTuple newTup)
      let (heapPage, _) ← orPanic (heapPage.addTuple newEncoded)
      writeHeapPage pageId heapPage
      let _ ← onWal (append (.update relOid pageId oldTup newTup))
      pure heapPage

def updateTuples (relOid : Oid) (pageId : PageId) :
    List (Nat × Tuple × Bytes) → HeapPage → Proc (Database σ) Unit
  | [], _ => pure ()
  | (slotIdx, tup, newData) :: tuples, heapPage => do
      let heapPage ← updateTuple relOid pageId heapPage slotIdx tup newData
      updateTuples relOid pageId tuples heapPage

/-- `tuples_to_update` of one page. -/
def tuplesToUpdate (page : HeapPage) (desc : TupleDesc) (columnIdx : Nat) (newValue : Bytes)
    (filter : Option Filter) : List (Nat × Tuple × Bytes) :=
  (matchingTuples page desc filter).filterMap fun (slotIdx, tup) =>
    (buildUpdatedData tup.data columnIdx newValue).map fun newData => (slotIdx, tup, newData)

def updatePages (relOid : Oid) (desc : TupleDesc) (columnIdx : Nat) (newValue : Bytes)
    (filter : Option Filter) : List PageId → Proc (Database σ) Nat
  | [] => pure 0
  | pageId :: pageIds => do
      let heapPage ← readHeapPage pageId
      let tuples := tuplesToUpdate heapPage desc columnIdx newValue filter
      updateTuples relOid pageId tuples heapPage
      let updated ← updatePages relOid desc columnIdx newValue filter pageIds
      pure (tuples.length + updated)

def tupleUpdate (relOid : Oid) (columnIdx : Nat) (newValue : Bytes) (filter : Option Filter) :
    Proc (Database σ) Nat := do
  let rel ← onCache (getRelationState relOid)
  updatePages relOid rel.tupleDesc columnIdx newValue filter rel.pages

def deleteTuple (relOid : Oid) (pageId : PageId) (heapPage : HeapPage) (slotIdx : Nat)
    (tup : Tuple) : Proc (Database σ) HeapPage := do
  let xid ← onWal allocateXid
  let tup := { tup with xmax := xid }
  let encoded ← ofExcept (serializeTuple tup)
  let heapPage ← orPanic (replaceTuple heapPage slotIdx encoded)
  writeHeapPage pageId heapPage
  let _ ← onWal (append (.delete relOid pageId tup))
  pure heapPage

def deleteTuples (relOid : Oid) (pageId : PageId) :
    List (Nat × Tuple) → HeapPage → Proc (Database σ) Unit
  | [], _ => pure ()
  | (slotIdx, tup) :: tuples, heapPage => do
      let heapPage ← deleteTuple relOid pageId heapPage slotIdx tup
      deleteTuples relOid pageId tuples heapPage

def deletePages (relOid : Oid) (desc : TupleDesc) (filter : Option Filter) :
    List PageId → Proc (Database σ) Nat
  | [] => pure 0
  | pageId :: pageIds => do
      let heapPage ← readHeapPage pageId
      let tuples := matchingTuples heapPage desc filter
      deleteTuples relOid pageId tuples heapPage
      let deleted ← deletePages relOid desc filter pageIds
      pure (tuples.length + deleted)

def tupleDelete (relOid : Oid) (filter : Option Filter) : Proc (Database σ) Nat := do
  let rel ← onCache (getRelationState relOid)
  deletePages relOid rel.tupleDesc filter rel.pages

/-- A normal slot whose tuple was deleted before `oldestXmin`. -/
def reclaimable (oldestXmin : UInt32) (lp : LinePointer) (tupleData : Option Bytes) : Bool :=
  match tupleData with
  | none => false
  | some tupleData =>
      match deserializeTuple tupleData with
      | .ok tup =>
          lp.lpFlags = lpNormal && tup.xmax ≠ 0 && decide (tup.xmax < oldestXmin.toUInt64)
      | .error _ => false

/-- The marking loop of `vacuum_relation`: the line pointers after it and the
number of slots marked dead. -/
def markReclaimable (oldestXmin : UInt32) :
    List LinePointer → List Bytes → List LinePointer × Nat
  | [], _ => ([], 0)
  | lp :: lps, tuples =>
      let (rest, count) := markReclaimable oldestXmin lps tuples.tail
      if reclaimable oldestXmin lp tuples.head? then
        ({ lp with lpFlags := lpDead } :: rest, count + 1)
      else (lp :: rest, count)

def vacuumPages (oldestXmin : UInt32) : List PageId → Proc (Database σ) Nat
  | [] => pure 0
  | pageId :: pageIds => do
      let heapPage ← readHeapPage pageId
      let (linePointers, count) :=
        markReclaimable oldestXmin heapPage.linePointers heapPage.tuples
      if 0 < count then
        let heapPage ← orPanic { heapPage with linePointers := linePointers }.compact
        writeHeapPage pageId heapPage
        onCache (onDisk (invalidatePage pageId))
      let reclaimed ← vacuumPages oldestXmin pageIds
      pure (count + reclaimed)

def vacuumRelation (relOid : Oid) (oldestXmin : UInt32) : Proc (Database σ) Nat := do
  let rel ← onCache (getRelationState relOid)
  vacuumPages oldestXmin rel.pages

end Writes

end PostgressRs.Executor.HeapAccess
