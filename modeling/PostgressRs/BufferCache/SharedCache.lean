import PostgressRs.BufferCache.PagePool

/-!
The shared cache (`SharedBufferCache` of `src/buffer_cache/mod.rs`): storage,
pool and the registered relations.  A relation's `dirty_buffers` list is only
ever pushed to and is left out.
-/

namespace PostgressRs.BufferCache.SharedCache

open PostgressRs.BufferCache.PagePool
open PostgressRs.Lib.ByteBuffer
open PostgressRs.Lib.Procedure
open PostgressRs.Storage.PageStore
open PostgressRs.Types

structure SharedBufferCache (σ : Type) where
  disk : PoolState σ
  rels : AList fun _ : Oid => Relation

section

variable {σ : Type}

def SharedBufferCache.new (storage : σ) : SharedBufferCache σ where
  disk := ⟨BufferPool.new 1024, storage⟩
  rels := ∅

/-- An existing entry is kept. -/
def registerRelation (self : SharedBufferCache σ) (rel : Relation) : SharedBufferCache σ :=
  match self.rels.lookup rel.relOid with
  | some _ => self
  | none => { self with rels := self.rels.insert rel.relOid rel }

def onDisk {α : Type} : Proc (PoolState σ) α → Proc (SharedBufferCache σ) α :=
  within SharedBufferCache.disk fun cache disk => { cache with disk := disk }

/-- `get_relation_state(rel_oid).ok_or_else(..)?`. -/
def getRelationState (relOid : Oid) : Proc (SharedBufferCache σ) Relation := fun cache =>
  match cache.rels.lookup relOid with
  | some rel => .ok rel cache
  | none => .err "Relation not found" cache

/-- `rel_state.relation = rel`. -/
def setRelation (relOid : Oid) (rel : Relation) : Proc (SharedBufferCache σ) Unit :=
  modify fun cache => { cache with rels := cache.rels.insert relOid rel }

variable [StorageTrait σ]

def fetchIndices : List PageId → Proc (PoolState σ) (List (PageId × Nat))
  | [] => pure []
  | pageId :: pageIds => do
      let idx ← fetchPage pageId
      let indices ← fetchIndices pageIds
      pure ((pageId, idx) :: indices)

def readIndices : List (PageId × Nat) → Proc (PoolState σ) (List (PageId × Bytes))
  | [] => pure []
  | (pageId, idx) :: indices => do
      let buf ← buffer idx
      let pages ← readIndices indices
      pure ((pageId, buf.data) :: pages)

/-- `SharedBufferCache::fetch_page`. -/
def fetchPageData (pageId : PageId) : Proc (PoolState σ) Bytes := do
  let idx ← fetchPage pageId
  let buf ← buffer idx
  pure buf.data

/-- All pages are fetched before any of their slots is read. -/
def fetchPagesBatch (pageIds : List PageId) : Proc (PoolState σ) (List (PageId × Bytes)) := do
  let indices ← fetchIndices pageIds
  readIndices indices

end

end PostgressRs.BufferCache.SharedCache
