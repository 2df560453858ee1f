import PostgressRs.Btree.IndexPage

/-!
Insertion into a multi-page B-tree (`src/btree/insert.rs`) and search
(`src/btree/search.rs`).  The recursion is bounded by fuel; running out of it
is a stack overflow, hence a panic.
-/

namespace PostgressRs.Btree.TreeAccess

open PostgressRs.Btree.IndexPage
open PostgressRs.Lib.ByteBuffer
open PostgressRs.Lib.Procedure
open PostgressRs.Lib.SortedSearch
open PostgressRs.Storage.PageStore
open PostgressRs.Types

/-- The child of the last entry whose key is not beyond `key`, or `child`. -/
def lastChild (key : Bytes) : PageId → List IndexTuple → PageId
  | child, [] => child
  | child, k :: ks => if k.key ≤ key then lastChild key ⟨k.heapPointer.1⟩ ks else child

def findChildPageId (page : BTreePage) (key : Bytes) : PageId :=
  match page.keys with
  | [] => page.pageId
  | first :: _ => lastChild key ⟨first.heapPointer.1⟩ page.keys

def findDescendChild (page : BTreePage) (searchKey : Bytes) : PageId :=
  match page.keys with
  | [] => page.pageId
  | first :: _ => lastChild searchKey ⟨first.heapPointer.1⟩ page.keys

/-- The first entry that points to `child` is made to point to `newChild`. -/
def repoint (child newChild : PageId) : List IndexTuple → List IndexTuple
  | [] => []
  | k :: ks =>
      if k.heapPointer.1 = child.val then { k with heapPointer := (newChild.val, 0) } :: ks
      else k :: repoint child newChild ks

section Insert

variable {σ : Type} [StorageTrait σ]

/-- A new root over the two halves of a split. -/
def growRoot (page right : BTreePage) (pushUpKey : Option IndexTuple) (pageSize : Nat) :
    Proc (IndexStore σ) (Option PageId) := do
  let newRootId ← nextPageId
  let level ← orPanic (if page.level.toNat + 1 < 2 ^ 16 then some (page.level + 1) else none)
  let sep := pushUpKey.getD ⟨[], (0, 0), ⟨0⟩⟩
  let newRoot :=
    { BTreePage.new .root newRootId with
      level := level
      keys :=
        [{ sep with heapPointer := (page.pageId.val, 0) },
          { sep with heapPointer := (right.pageId.val, 0) }] }
  storePage newRootId newRoot pageSize
  pure (some newRootId)

/-- Where a tuple goes when a leaf splits: both halves, and the key pushed up. -/
def placeTuple (page right : BTreePage) (tuple : IndexTuple) :
    BTreePage × BTreePage × Option IndexTuple :=
  if tuple.key < (right.keys.head?.map IndexTuple.key).getD [] then
    (page.insertSorted tuple, right, right.keys.head?)
  else
    (page, right.insertSorted tuple, (right.insertSorted tuple).keys.head?)

/-- Splits a full leaf around a tuple and writes both halves. -/
def splitLeaf (pageId : PageId) (page : BTreePage) (tuple : IndexTuple) (pageSize : Nat) :
    Proc (IndexStore σ) (BTreePage × BTreePage × Option IndexTuple) := do
  let (page, right) ← orPanic (page.splitAt (page.keys.length / 2))
  let rightId ← nextPageId
  let right := { right with pageId := rightId, level := page.level }
  let (page, right, pushUpKey) := placeTuple page right tuple
  let right := { right with leftSibling := some page.pageId }
  storePage pageId page pageSize
  storePage right.pageId right pageSize
  pure (page, right, pushUpKey)

/-- The leaf branch of `insert_recursive`. -/
def insertLeaf (pageId : PageId) (page : BTreePage) (tuple : IndexTuple) (pageSize : Nat)
    (isRoot : Bool) : Proc (IndexStore σ) (Option PageId) := do
  let page := if page.keys.isEmpty then { page with pageType := .leaf } else page
  if page.isFull pageSize then
    let (page, right, pushUpKey) ← splitLeaf pageId page tuple pageSize
    if isRoot then growRoot page right pushUpKey pageSize
    else pure (some right.pageId)
  else
    storePage pageId (page.insertSorted tuple) pageSize
    pure none

def splitInternal (page : BTreePage) (updatedChildId : PageId) (pageSize : Nat) :
    Proc (IndexStore σ) (Option PageId) := do
  let (page, right) ← orPanic (page.splitAt (page.keys.length / 2))
  let rightId ← nextPageId
  let right :=
    { right with
      pageId := rightId
      level := page.level
      leftSibling := some page.pageId
      keys := right.keys.modifyHead fun k => { k with heapPointer := (updatedChildId.val, 0) }
      pageType := .internal }
  let page := { page with pageType := .internal }
  storePage page.pageId page pageSize
  storePage right.pageId right pageSize
  let pushUp ← orPanic right.keys.head?
  growRoot page right (some pushUp) pageSize

/-- What a parent does with the answer of the child it descended to. -/
def updateParent (pageId childPageId : PageId) (pageSize : Nat) :
    Option PageId → Proc (IndexStore σ) (Option PageId)
  | none => pure none
  | some newChildId => do
      let updated ← fetchPage pageId
      let updated := { updated with keys := repoint childPageId newChildId updated.keys }
      if updated.isFull pageSize then splitInternal updated newChildId pageSize
      else
        storePage pageId updated pageSize
        pure none

def insertRecursive (tuple : IndexTuple) (pageSize : Nat) :
    Nat → PageId → Bool → Proc (IndexStore σ) (Option PageId)
  | 0, _, _ => fun _ => .panic
  | fuel + 1, pageId, isRoot => do
      let page ← fetchPage pageId
      if page.pageType = .leaf ∨ page.keys = [] then
        insertLeaf pageId page tuple pageSize isRoot
      else
        let childPageId := findChildPageId page tuple.key
        let newChild ← insertRecursive tuple pageSize fuel childPageId false
        updateParent pageId childPageId pageSize newChild

def btreeInsertMultipage (fuel : Nat) (rootPage : PageId) (tuple : IndexTuple) (pageSize : Nat) :
    Proc (IndexStore σ) PageId := do
  let result ← insertRecursive tuple pageSize fuel rootPage true
  pure (result.getD rootPage)

/-- A sequence of insertions, each into the root the one before returned. -/
def insertAll (fuel pageSize : Nat) :
    List IndexTuple → PageId → Proc (IndexStore σ) PageId
  | [], rootPage => pure rootPage
  | tuple :: tuples, rootPage => do
      let rootPage ← btreeInsertMultipage fuel rootPage tuple pageSize
      insertAll fuel pageSize tuples rootPage

end Insert

section Search

variable {σ : Type} [StorageTrait σ]

/-- `read_page` with the context a search adds to its errors. -/
def fetchForSearch (pageId : PageId) : Proc (IndexStore σ) BTreePage := fun s =>
  match fetchPage pageId s with
  | .err _ s' => .err s!"reading page PageId({pageId.val}) during search" s'
  | outcome => outcome

def searchPage (searchKey : Bytes) : Nat → PageId → Proc (IndexStore σ) (List IndexTuple)
  | 0, _ => fun _ => .panic
  | fuel + 1, pageId => do
      let page ← fetchForSearch pageId
      match page.pageType with
      | .leaf | .overflow => pure (page.keys.filter fun k => k.key = searchKey)
      | .root | .internal => searchPage searchKey fuel (findDescendChild page searchKey)
      | .metaPage => pure []

def btreeSearch (fuel : Nat) (rootPage : PageId) (searchKey : Bytes) :
    Proc (IndexStore σ) (List IndexTuple) :=
  searchPage searchKey fuel rootPage

end Search

end PostgressRs.Btree.TreeAccess
