import PostgressRs.Lib.Procedure
import PostgressRs.Lib.SortedSearch
import PostgressRs.Storage.PageStore

/-!
B-tree pages (`src/btree/page.rs`) and their byte format (`serialize_page` and
`deserialize_page` of `src/btree/insert.rs`).  Heap oids are not stored.  A
`none` is a panic.
-/

namespace PostgressRs.Btree.IndexPage

open PostgressRs.Lib.ByteBuffer
open PostgressRs.Lib.Procedure
open PostgressRs.Lib.SortedSearch
open PostgressRs.Storage.PageStore
open PostgressRs.Types

inductive BTreePageType where
  | metaPage
  | root
  | internal
  | leaf
  | overflow
deriving DecidableEq

structure IndexTuple where
  key : Bytes
  heapPointer : UInt32 × UInt16
  heapOid : Oid
deriving DecidableEq

structure BTreePage where
  pageType : BTreePageType
  pageId : PageId
  level : UInt16
  keys : List IndexTuple
  leftSibling : Option PageId
  rightSibling : Option PageId
deriving DecidableEq

namespace BTreePage

def new (pageType : BTreePageType) (pageId : PageId) : BTreePage where
  pageType := pageType
  pageId := pageId
  level := 0
  keys := []
  leftSibling := none
  rightSibling := none

def isFull (self : BTreePage) (pageSize : Nat) : Bool :=
  decide (pageSize / 64 ≤ self.keys.length)

def insertSorted (self : BTreePage) (tuple : IndexTuple) : BTreePage :=
  { self with keys := insertByKey IndexTuple.key self.keys tuple }

/-- The page with what stays in it, and the new right page. -/
def splitAt (self : BTreePage) (splitPos : Nat) : Option (BTreePage × BTreePage) :=
  if splitPos ≤ self.keys.length then
    some ({ self with keys := self.keys.take splitPos },
      { new self.pageType ⟨0⟩ with
        keys := self.keys.drop splitPos
        level := self.level })
  else none

end BTreePage

section Codec

def pageTypeByte : BTreePageType → UInt8
  | .metaPage => 0
  | .root => 1
  | .internal => 2
  | .leaf => 3
  | .overflow => 4

def pageTypeOfByte (byte : UInt8) : BTreePageType :=
  if byte = 1 then .root
  else if byte = 2 then .internal
  else if byte = 4 then .overflow
  else .leaf

def siblingValue (sibling : Option PageId) : UInt32 :=
  (sibling.map PageId.val).getD 0

def siblingOfValue (value : UInt32) : Option PageId :=
  if value = 0 then none else some ⟨value⟩

/-- The entry loop of `serialize_page`, from position `pos` on. -/
def writeEntries (pageSize : Nat) : List IndexTuple → Bytes → Nat → Option Bytes
  | [], data, _ => some data
  | tuple :: tuples, data, pos => do
      let keyLen := tuple.key.length % 2 ^ 32
      if pageSize < pos + 4 + keyLen + 6 then
        pure data
      else
        let data ← copyFromSlice data pos (toLeBytes 4 keyLen)
        let pos := pos + 4
        let data ←
          if tuple.key.length = keyLen then copyFromSlice data pos tuple.key else none
        let pos := pos + keyLen
        let data ← copyFromSlice data pos (toLeBytes 4 tuple.heapPointer.1.toNat)
        let pos := pos + 4
        let data ← copyFromSlice data pos (toLeBytes 2 tuple.heapPointer.2.toNat)
        writeEntries pageSize tuples data (pos + 2)

def serializePage (page : BTreePage) (pageSize : Nat) : Option Bytes := do
  let data := List.replicate pageSize 0
  let data ← copyFromSlice data 0 [pageTypeByte page.pageType]
  let data ← copyFromSlice data 1 (toLeBytes 2 page.level.toNat)
  let data ← copyFromSlice data 3 (toLeBytes 2 page.keys.length)
  let data ← copyFromSlice data 8 (toLeBytes 4 (siblingValue page.leftSibling).toNat)
  let data ← copyFromSlice data 12 (toLeBytes 4 (siblingValue page.rightSibling).toNat)
  writeEntries pageSize page.keys data 64

/-- The entry loop of `deserialize_page`. -/
def readEntries (data : Bytes) : Nat → Nat → Option (List IndexTuple)
  | 0, _ => some []
  | count + 1, pos => do
      if data.length < pos + 4 + 6 then
        pure []
      else
        let keyLen := fromLeBytes (← slice data pos (pos + 4))
        if keyLen = 0 ∨ data.length < pos + 4 + keyLen + 6 then
          pure []
        else
          let pos := pos + 4
          let key ← slice data pos (pos + keyLen)
          let pos := pos + keyLen
          let heapPage ← slice data pos (pos + 4)
          let pos := pos + 4
          let heapOffset ← slice data pos (pos + 2)
          let keys ← readEntries data count (pos + 2)
          pure
            ({ key := key
               heapPointer :=
                (UInt32.ofNat (fromLeBytes heapPage), UInt16.ofNat (fromLeBytes heapOffset))
               heapOid := ⟨0⟩ } :: keys)

def deserializePage (pageId : PageId) (data : Bytes) : Option BTreePage := do
  if data.length < 16 then
    pure (BTreePage.new .leaf pageId)
  else
    let pageType ← data[0]?
    let level ← slice data 1 3
    let numKeys ← slice data 3 5
    let leftSibling ← slice data 8 12
    let rightSibling ← slice data 12 16
    let keys ← readEntries data (fromLeBytes numKeys) 64
    pure
      { pageType := pageTypeOfByte pageType
        pageId := pageId
        level := UInt16.ofNat (fromLeBytes level)
        keys := keys
        leftSibling := siblingOfValue (UInt32.ofNat (fromLeBytes leftSibling))
        rightSibling := siblingOfValue (UInt32.ofNat (fromLeBytes rightSibling)) }

end Codec

/-- The store an index lives in, and the ids its page allocator has left to
give out: `next_page_id` pops the first and panics when there is none. -/
structure IndexStore (σ : Type) where
  storage : σ
  pageIds : List PageId

section Pages

variable {σ : Type} [StorageTrait σ]

/-- `read_page` of the B-tree. -/
def fetchPage (pageId : PageId) : Proc (IndexStore σ) BTreePage := do
  let data ← ofExcept (← read fun s => readPage s.storage pageId)
  orPanic (deserializePage pageId data)

def storeData (pageId : PageId) (data : Bytes) : Proc (IndexStore σ) Unit := fun s =>
  match writePage s.storage pageId data with
  | (.ok (), storage) => .ok () { s with storage := storage }
  | (.error e, storage) => .err e { s with storage := storage }

/-- `write_page` of the B-tree. -/
def storePage (pageId : PageId) (page : BTreePage) (pageSize : Nat) :
    Proc (IndexStore σ) Unit := do
  let data ← orPanic (serializePage page pageSize)
  storeData pageId data

omit [StorageTrait σ] in
def nextPageId : Proc (IndexStore σ) PageId := fun s =>
  match s.pageIds with
  | [] => .panic
  | pageId :: pageIds => .ok pageId { s with pageIds := pageIds }

end Pages

end PostgressRs.Btree.IndexPage
