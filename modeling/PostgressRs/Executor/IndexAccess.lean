import PostgressRs.Btree.TreeAccess

/-!
The executor's calls into an index (`src/executor/btree.rs`).  The oid of the
index is not looked at.
-/

namespace PostgressRs.Executor.IndexAccess

open PostgressRs.Btree.IndexPage
open PostgressRs.Btree.TreeAccess
open PostgressRs.Lib.ByteBuffer
open PostgressRs.Lib.Procedure
open PostgressRs.Storage.PageStore
open PostgressRs.Types

structure BTreeScan where
  scanFrom : Bytes

structure BTreeInsert where
  rootPage : PageId
  key : Bytes
  heapPage : UInt32
  heapOffset : UInt16

def BTreeInsert.tuple (op : BTreeInsert) : IndexTuple where
  key := op.key
  heapPointer := (op.heapPage, op.heapOffset)
  heapOid := ⟨0⟩

variable {σ : Type} [StorageTrait σ]

/-- `btree_insert` of `src/btree/insert.rs`: a full page is not split. -/
def btreeInsertPage (rootPage : PageId) (tuple : IndexTuple) (pageSize : Nat) :
    Proc (IndexStore σ) PageId := do
  let page ← fetchPage rootPage
  storePage rootPage (page.insertSorted tuple) pageSize
  pure rootPage

def btreeInsert (op : BTreeInsert) (pageSize : Nat) : Proc (IndexStore σ) Unit := do
  let _ ← btreeInsertPage op.rootPage op.tuple pageSize
  pure ()

def btreeScan (fuel : Nat) (op : BTreeScan) (rootPage : PageId) :
    Proc (IndexStore σ) (List (Bytes × PageId × UInt16)) := do
  let results ← btreeSearch fuel rootPage op.scanFrom
  pure (results.map fun t => (t.key, ⟨t.heapPointer.1⟩, t.heapPointer.2))

section Walk

/-- The page types that `walk_btree` of `src/executor/heap.rs` tells apart; it
knows no overflow pages. -/
def walkedType (byte : UInt8) : Option BTreePageType :=
  if byte = 0 then some .metaPage
  else if byte = 1 then some .root
  else if byte = 2 then some .internal
  else if byte = 3 then some .leaf
  else none

/-- The entry loop of `walk_btree`.  It goes by no count; each round takes at
least eleven bytes. -/
def walkEntries (data : Bytes) : Option (List IndexTuple) :=
  readEntries data data.length 64

/-- The entry of an inner page that `walk_btree` descends into: the first one
that is not below the key, or else the last one. -/
def walkedEntry (searchKey : Bytes) (entries : List IndexTuple) : Option IndexTuple :=
  match entries.find? fun entry => searchKey = [] ∨ searchKey ≤ entry.key with
  | some entry => some entry
  | none => entries.getLast?

/-- What `walk_btree` adds to its results.  Errors of the storage are taken for
an empty page. -/
def walkBtree (storage : σ) (searchKey : Bytes) :
    Nat → PageId → Option (List (UInt32 × UInt16))
  | 0, _ => none
  | fuel + 1, pageId =>
      match readPage storage pageId with
      | .error _ => some []
      | .ok data =>
          if data.length < 64 then some []
          else do
            let byte ← data[0]?
            match walkedType byte with
            | none => some []
            | some pageType => do
                let entries ← walkEntries data
                match pageType with
                | .leaf =>
                    some ((entries.filter fun entry => searchKey = [] ∨ entry.key = searchKey).map
                      IndexTuple.heapPointer)
                | .root | .internal =>
                    match walkedEntry searchKey entries with
                    | some entry => walkBtree storage searchKey fuel ⟨entry.heapPointer.1⟩
                    | none => some []
                | _ => some []

end Walk

end PostgressRs.Executor.IndexAccess
