import Mathlib.Data.List.AList
import PostgressRs.Types

/-!
Page stores (`src/storage/mod.rs`, `src/storage/ephemeral.rs`).
-/

namespace PostgressRs.Storage.PageStore

open PostgressRs.Lib.ByteBuffer
open PostgressRs.Types

/-- The `StorageTrait` object.  A write that fails may already have changed the
store. -/
class StorageTrait (σ : Type) where
  readPage : σ → PageId → Except String Bytes
  writePage : σ → PageId → Bytes → Except String Unit × σ

export StorageTrait (readPage writePage)

/-- A store whose writes succeed and that reads back what was last written. -/
class LawfulStorage (σ : Type) [StorageTrait σ] : Prop where
  write_ok (store : σ) (page : PageId) (data : Bytes) : (writePage store page data).1 = .ok ()
  read_write_self (store : σ) (page : PageId) (data : Bytes) :
    readPage (writePage store page data).2 page = .ok data
  read_write_of_ne (store : σ) (page other : PageId) (data : Bytes) (hne : other ≠ page) :
    readPage (writePage store page data).2 other = readPage store other

/-- What a page that was never written reads as. -/
def zeroPage : Bytes := List.replicate 8192 0

theorem zeroPage_length : zeroPage.length = 8192 := by
  rw [zeroPage, List.length_replicate]

/-- The in-memory store. -/
structure EphemeralStorage where
  pages : AList fun _ : PageId => Bytes

namespace EphemeralStorage

def new : EphemeralStorage := ⟨∅⟩

instance : StorageTrait EphemeralStorage where
  readPage store page := .ok ((store.pages.lookup page).getD zeroPage)
  writePage store page data := (.ok (), ⟨store.pages.insert page data⟩)

theorem readPage_eq (store : EphemeralStorage) (page : PageId) :
    readPage store page = .ok ((store.pages.lookup page).getD zeroPage) := rfl

theorem writePage_eq (store : EphemeralStorage) (page : PageId) (data : Bytes) :
    writePage store page data = (.ok (), ⟨store.pages.insert page data⟩) := rfl

instance : LawfulStorage EphemeralStorage where
  write_ok _ _ _ := rfl
  read_write_self store page data := by
    rw [writePage_eq, readPage_eq, AList.lookup_insert, Option.getD_some]
  read_write_of_ne store page other data hne := by
    rw [writePage_eq, readPage_eq, readPage_eq, AList.lookup_insert_ne hne]

end EphemeralStorage

end PostgressRs.Storage.PageStore
