import PostgressRs.BufferCache.PoolInvariants
import PostgressRs.Wal.FlushBookkeeping

/-!
`flush_dirty_pages` and `Checkpointer::do_checkpoint` of `src/buffer_cache/mod.rs`,
interleaved with writers.  A checkpoint takes its three phases one by one; a writer
changes a page of the pool, unpins it as dirty, and appends the page's record to
the log in a later step.
-/

namespace PostgressRs.BufferCache.Checkpointer

open PostgressRs.BufferCache.PagePool
open PostgressRs.BufferCache.PoolInvariants
open PostgressRs.Lib.ByteBuffer
open PostgressRs.Lib.Procedure
open PostgressRs.Storage.PageStore
open PostgressRs.Types
open PostgressRs.Wal.FlushBookkeeping
open PostgressRs.Wal.LogRecord
open PostgressRs.Wal.WriteAheadLog

section Flush

variable {σ : Type} [StorageTrait σ]

/-- Whether the slot that the cloned map has for the page is dirty. -/
def isDirtySlot (map : AList fun _ : PageId => Nat) (pageId : PageId) :
    Proc (PoolState σ) Bool :=
  match map.lookup pageId with
  | some idx => do
      let buf ← buffer idx
      pure buf.isDirty
  | none => pure false

/-- The loop of `flush_dirty_pages` over the keys of the cloned map. -/
def flushKeys (map : AList fun _ : PageId => Nat) : List PageId → Proc (PoolState σ) Nat
  | [] => pure 0
  | pageId :: order => do
      let dirty ← isDirtySlot map pageId
      if dirty then
        flushPage pageId
        let flushed ← flushKeys map order
        pure (flushed + 1)
      else flushKeys map order

/-- `order` is the order in which the keys of the map come. -/
def flushDirtyPages (order : List PageId) : Proc (PoolState σ) Nat := do
  let map ← read fun s => s.pool.pageMap
  flushKeys map order

/-- A writer sets the bytes of the page it finds in the pool and unpins it. -/
def changePage (pageId : PageId) (data : Bytes) : Proc (PoolState σ) Bool := do
  match ← lookupPage pageId with
  | some idx =>
      let buf ← buffer idx
      setBuffer idx { buf with data := data }
      unpinPage pageId true
      pure true
  | none => pure false

end Flush

/-- The phase of `do_checkpoint` a checkpointer has completed. -/
inductive Phase where
  | idle
  | pagesFlushed
  | walFlushed
deriving DecidableEq

/-- A change of a page: the number of changes the page had before. -/
structure Change where
  pageId : PageId
  version : Nat
deriving DecidableEq

/-- The pool with its storage, the log, and the checkpointer's `redo_lsn`.  A writer
may have a change that it has not logged yet.  `images` has the bytes that each
change has given to a page, and `logged` the changes that have a record, with its
LSN. -/
structure System (σ : Type) where
  cache : PoolState σ
  wal : WAL
  redoLsn : Nat
  phase : Nat → Phase
  unlogged : Nat → Option Change
  images : PageId → List Bytes
  logged : List (Nat × Change)

def System.new {σ : Type} (poolSize : Nat) (storage : σ) (segmentSize : UInt32) : System σ where
  cache := ⟨BufferPool.new poolSize, storage⟩
  wal := WAL.new segmentSize
  redoLsn := 0
  phase := fun _ => .idle
  unlogged := fun _ => none
  images := fun _ => []
  logged := []

/-- The page that a record describes. -/
def recordPage : WALRecord → Option PageId
  | .insert _ pageId _ => some pageId
  | .update _ pageId _ _ => some pageId
  | .delete _ pageId _ => some pageId
  | _ => none

/-- Checkpointers and writers are numbered. -/
inductive Event where
  | fetch (pageId : PageId)
  | change (writer : Nat) (pageId : PageId) (data : Bytes)
  | append (writer : Nat) (record : WALRecord) (returned : Option Nat)
  | flushPages (checkpointer : Nat) (order : List PageId)
  | flushWal (checkpointer : Nat)
  | recordRedo (checkpointer : Nat)

section Steps

variable [Bincode] {σ : Type} [StorageTrait σ]

inductive Step : System σ → Event → System σ → Prop
  | fetch {s : System σ} {pageId : PageId} {cache : PoolState σ} :
      PoolStep s.cache (.fetchPage pageId) cache →
      Step s (.fetch pageId) { s with cache := cache }
  | change {s : System σ} {writer : Nat} {pageId : PageId} {data : Bytes} {cache : PoolState σ} :
      s.unlogged writer = none → changePage pageId data s.cache = .ok true cache →
      Step s (.change writer pageId data)
        { s with
          cache := cache
          unlogged := Function.update s.unlogged writer
            (some ⟨pageId, (s.images pageId).length⟩)
          images := Function.update s.images pageId (s.images pageId ++ [data]) }
  | append {s : System σ} {writer : Nat} {change : Change} {record : WALRecord} {lsn : Nat}
      {wal : WAL} :
      s.unlogged writer = some change → recordPage record = some change.pageId →
      LogStep s.wal (.append record (some lsn)) wal →
      Step s (.append writer record (some lsn))
        { s with
          wal := wal
          unlogged := Function.update s.unlogged writer none
          logged := (lsn, change) :: s.logged }
  | appendFailed {s : System σ} {writer : Nat} {change : Change} {record : WALRecord}
      {wal : WAL} :
      s.unlogged writer = some change → recordPage record = some change.pageId →
      LogStep s.wal (.append record none) wal →
      Step s (.append writer record none)
        { s with wal := wal, unlogged := Function.update s.unlogged writer none }
  | flushPages {s : System σ} {checkpointer count : Nat} {order : List PageId}
      {cache : PoolState σ} :
      s.phase checkpointer = .idle → order.Perm s.cache.pool.pageMap.keys →
      flushDirtyPages order s.cache = .ok count cache →
      Step s (.flushPages checkpointer order)
        { s with cache := cache, phase := Function.update s.phase checkpointer .pagesFlushed }
  | flushPagesFailed {s : System σ} {checkpointer : Nat} {order : List PageId} {e : String}
      {cache : PoolState σ} :
      s.phase checkpointer = .idle → order.Perm s.cache.pool.pageMap.keys →
      flushDirtyPages order s.cache = .err e cache →
      Step s (.flushPages checkpointer order) { s with cache := cache }
  | flushWal {s : System σ} {checkpointer : Nat} {wal : WAL} :
      s.phase checkpointer = .pagesFlushed → LogStep s.wal .flush wal →
      Step s (.flushWal checkpointer)
        { s with wal := wal, phase := Function.update s.phase checkpointer .walFlushed }
  | recordRedo {s : System σ} {checkpointer lsn : Nat} {wal : WAL} :
      s.phase checkpointer = .walFlushed → getFlushedLsn s.wal = .ok lsn wal →
      Step s (.recordRedo checkpointer)
        { s with wal := wal, redoLsn := lsn, phase := Function.update s.phase checkpointer .idle }

/-- The storage has the page as the change or a later one has left it. -/
def Present (s : System σ) (change : Change) : Prop :=
  ∃ version data, change.version ≤ version ∧ (s.images change.pageId)[version]? = some data ∧
    readPage s.cache.storage change.pageId = .ok data

/-- Everything that was logged below the redo point is in storage. -/
def RedoSafe (s : System σ) : Prop :=
  ∀ lsn change, (lsn, change) ∈ s.logged → lsn < s.redoLsn → Present s change

/-- No fetch leaves a page mapped to a slot that it has reused; and while a
checkpoint has flushed the pages and not yet the log, only changes that are in
storage are logged. -/
def LogsBehindFlush (s : System σ) : Event → Prop
  | .fetch pageId => UnmapsVictim s.cache (.fetchPage pageId)
  | .append writer _ _ =>
      (∃ checkpointer, s.phase checkpointer = .pagesFlushed) →
        ∀ change, s.unlogged writer = some change → Present s change
  | _ => True

end Steps

end PostgressRs.BufferCache.Checkpointer
