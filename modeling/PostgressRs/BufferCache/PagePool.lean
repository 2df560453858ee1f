import PostgressRs.Lib.Procedure
import PostgressRs.Storage.PageStore

/-!
The buffer pool (`BufferPool` of `src/buffer_cache/mod.rs`) together with the
storage its calls are given.  Counters are `u32` and panic on overflow, an index
outside the buffer array panics.
-/

namespace PostgressRs.BufferCache.PagePool

open PostgressRs.Lib.ByteBuffer
open PostgressRs.Lib.Procedure
open PostgressRs.Storage.PageStore
open PostgressRs.Types

structure Buffer where
  pageId : PageId
  data : Bytes
  isDirty : Bool
  usageCount : UInt32
  pinCount : UInt32
deriving DecidableEq

structure BufferPool where
  poolSize : Nat
  buffers : List Buffer
  pageMap : AList fun _ : PageId => Nat
  nextVictim : Nat

def Buffer.empty : Buffer where
  pageId := ⟨0⟩
  data := zeroPage
  isDirty := false
  usageCount := 0
  pinCount := 0

/-- `x += 1` on `u32`. -/
def checkedIncr (x : UInt32) : Option UInt32 :=
  if x = 0xFFFFFFFF then none else some (x + 1)

namespace BufferPool

def new (poolSize : Nat) : BufferPool where
  poolSize := poolSize
  buffers := List.replicate poolSize Buffer.empty
  pageMap := ∅
  nextVictim := 0

/-- The clock sweep of `find_victim`, for `rounds` more positions of the hand:
the buffers with their decremented usage counts, and the victim if one was met. -/
def clockSweep (poolSize : Nat) : Nat → List Buffer → Nat → Option (List Buffer × Option Nat)
  | 0, buffers, _ => some (buffers, none)
  | rounds + 1, buffers, hand => do
      let buf ← buffers[hand]?
      if buf.pinCount = 0 then
        if 0 < buf.usageCount then
          let buffers := buffers.set hand { buf with usageCount := buf.usageCount - 1 }
          clockSweep poolSize rounds buffers ((hand + 1) % poolSize)
        else pure (buffers, some hand)
      else clockSweep poolSize rounds buffers ((hand + 1) % poolSize)

/-- The pool after the sweep and the slot to be reused.  With every slot pinned
that is slot 0. -/
def findVictim (self : BufferPool) : Option (BufferPool × Nat) := do
  let (buffers, swept) ←
    clockSweep self.poolSize (self.poolSize * 2) self.buffers self.nextVictim
  let pool := { self with buffers := buffers }
  match swept with
  | some victim =>
      pure ({ pool with nextVictim := (victim + 1) % self.poolSize }, victim)
  | none =>
      match buffers.findIdx? fun buf => buf.pinCount = 0 with
      | some i => pure ({ pool with nextVictim := (i + 1) % self.poolSize }, i)
      | none => pure (pool, 0)

end BufferPool

/-- The pool and the storage passed to its calls. -/
structure PoolState (σ : Type) where
  pool : BufferPool
  storage : σ

section Operations

variable {σ : Type} [StorageTrait σ]

def lookupPage (pageId : PageId) : Proc (PoolState σ) (Option Nat) :=
  read fun s => s.pool.pageMap.lookup pageId

/-- `buffers[idx]`. -/
def buffer (idx : Nat) : Proc (PoolState σ) Buffer := fun s =>
  match s.pool.buffers[idx]? with
  | some buf => .ok buf s
  | none => .panic

def setBuffer (idx : Nat) (buf : Buffer) : Proc (PoolState σ) Unit :=
  modify fun s => { s with pool := { s.pool with buffers := s.pool.buffers.set idx buf } }

def modifyMap (f : AList (fun _ : PageId => Nat) → AList fun _ : PageId => Nat) :
    Proc (PoolState σ) Unit :=
  modify fun s => { s with pool := { s.pool with pageMap := f s.pool.pageMap } }

/-- `storage.read_page(page_id)?`. -/
def readStorage (pageId : PageId) : Proc (PoolState σ) Bytes := fun s =>
  match readPage s.storage pageId with
  | .ok data => .ok data s
  | .error e => .err e s

/-- `storage.write_page(page_id, data)?`. -/
def writeStorage (pageId : PageId) (data : Bytes) : Proc (PoolState σ) Unit := fun s =>
  match writePage s.storage pageId data with
  | (.ok (), storage) => .ok () { s with storage := storage }
  | (.error e, storage) => .err e { s with storage := storage }

/-- `usage_count += 1` and `pin_count += 1` on one slot. -/
def pinSlot (idx : Nat) : Proc (PoolState σ) Unit := do
  let buf ← buffer idx
  let usageCount ← orPanic (checkedIncr buf.usageCount)
  let pinCount ← orPanic (checkedIncr buf.pinCount)
  setBuffer idx { buf with usageCount := usageCount, pinCount := pinCount }

/-- `find_victim` on the locked buffers. -/
def takeVictim : Proc (PoolState σ) Nat := fun s =>
  match s.pool.findVictim with
  | some (pool, slot) => .ok slot { s with pool := pool }
  | none => .panic

def fetchPage (pageId : PageId) : Proc (PoolState σ) Nat := do
  match ← lookupPage pageId with
  | some idx =>
      pinSlot idx
      pure idx
  | none =>
      let slot ← takeVictim
      let data ← readStorage pageId
      let victim ← buffer slot
      if victim.isDirty ∧ victim.pinCount = 0 then
        writeStorage victim.pageId victim.data
        modifyMap fun map => map.erase victim.pageId
      setBuffer slot
        { pageId := pageId
          data := data
          isDirty := false
          usageCount := 1
          pinCount := 1 }
      modifyMap fun map => map.insert pageId slot
      pure slot

/-- The overflow checks run in the other order here; either one panics. -/
def pinPage (pageId : PageId) : Proc (PoolState σ) (Option Nat) := do
  match ← lookupPage pageId with
  | some idx =>
      pinSlot idx
      pure (some idx)
  | none => pure none

def unpinPage (pageId : PageId) (isDirty : Bool) : Proc (PoolState σ) Unit := do
  match ← lookupPage pageId with
  | some idx =>
      let buf ← buffer idx
      let pinCount := if buf.pinCount = 0 then 0 else buf.pinCount - 1
      setBuffer idx { buf with pinCount := pinCount, isDirty := buf.isDirty || isDirty }
  | none => pure ()

def flushPage (pageId : PageId) : Proc (PoolState σ) Unit := do
  match ← lookupPage pageId with
  | some idx =>
      let buf ← buffer idx
      if buf.isDirty then
        writeStorage pageId buf.data
        setBuffer idx { buf with isDirty := false }
      else pure ()
  | none => pure ()

/-- `flush_all`; `order` is the order in which the cloned map is walked. -/
def flushAll : List PageId → Proc (PoolState σ) Unit
  | [] => pure ()
  | pageId :: order => do
      flushPage pageId
      flushAll order

def invalidatePage (pageId : PageId) : Proc (PoolState σ) Unit := do
  match ← lookupPage pageId with
  | some idx =>
      modifyMap fun map => map.erase pageId
      let buf ← buffer idx
      setBuffer idx { buf with isDirty := false, usageCount := 0, pinCount := 0 }
  | none => pure ()

end Operations

end PostgressRs.BufferCache.PagePool
