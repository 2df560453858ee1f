import PostgressRs.Btree.TreeShape

/-!
Insertions take the pages of an index from one shape to the next, and a search
reads what its shape makes searchable.
-/

namespace PostgressRs.Btree.TreeSteps

open PostgressRs.Btree.IndexPage
open PostgressRs.Btree.PageCodec
open PostgressRs.Btree.TreeAccess
open PostgressRs.Btree.TreeShape
open PostgressRs.Lib.ByteBuffer
open PostgressRs.Lib.Procedure
open PostgressRs.Lib.SortedSearch
open PostgressRs.Storage.PageStore
open PostgressRs.Types

section Pages

variable {σ : Type} [StorageTrait σ]

def LeafAt (storage : σ) (pageId : PageId) (entries : List IndexTuple) : Prop :=
  ∃ left right, PageAt storage pageId ⟨.leaf, pageId, 0, entries, left, right⟩

def rootEntries (separator : Bytes) (left right : PageId) : List IndexTuple :=
  [⟨separator, (left.val, 0), ⟨0⟩⟩, ⟨separator, (right.val, 0), ⟨0⟩⟩]

def ForkAt (storage : σ) (pageId : PageId) (separator : Bytes) (left right : PageId) : Prop :=
  ∃ level leftSibling rightSibling, PageAt storage pageId
    ⟨.root, pageId, level, rootEntries separator left right, leftSibling, rightSibling⟩

/-- Pages outside `touched` read as before. -/
def Frames (storage storage' : σ) (touched : List PageId) : Prop :=
  ∀ pageId page, pageId ∉ touched → PageAt storage pageId page → PageAt storage' pageId page

theorem Frames.leafAt {storage storage' : σ} {touched : List PageId}
    (h : Frames storage storage' touched) {pageId : PageId} (hout : pageId ∉ touched)
    {entries : List IndexTuple} (hleaf : LeafAt storage pageId entries) :
    LeafAt storage' pageId entries := by
  obtain ⟨left, right, hpage⟩ := hleaf
  exact ⟨left, right, h pageId _ hout hpage⟩

theorem Frames.forkAt {storage storage' : σ} {touched : List PageId}
    (h : Frames storage storage' touched) {pageId left right : PageId} (hout : pageId ∉ touched)
    {separator : Bytes} (hfork : ForkAt storage pageId separator left right) :
    ForkAt storage' pageId separator left right := by
  obtain ⟨level, leftSibling, rightSibling, hpage⟩ := hfork
  exact ⟨level, leftSibling, rightSibling, h pageId _ hout hpage⟩

theorem Frames.trans {storage storage' storage'' : σ} {touched touched' : List PageId}
    (h : Frames storage storage' touched) (h' : Frames storage' storage'' touched') :
    Frames storage storage'' (touched ++ touched') := by
  intro pageId page hout hpage
  simp only [List.mem_append, not_or] at hout
  exact h' pageId page hout.2 (h pageId page hout.1 hpage)

variable [LawfulStorage σ]

theorem storeLeaf_ok {s : IndexStore σ} (pageId : PageId) (page : BTreePage)
    (hleaf : page.pageType = .leaf) (hlevel : page.level = 0)
    (h : LeafEntries (page.keys.map unowned)) :
    ∃ storage, storePage pageId page 8192 s = .ok () { s with storage := storage } ∧
      LeafAt storage pageId (page.keys.map unowned) ∧ Frames s.storage storage [pageId] := by
  have hindexable : ∀ tuple ∈ page.keys, Indexable tuple := by
    intro tuple htuple
    have hmapped := h.indexable (unowned tuple) (List.mem_map_of_mem htuple)
    exact ⟨hmapped.nonempty, hmapped.short⟩
  obtain ⟨storage, hstore, hpage, hframe⟩ :=
    storePage_ok (s := s) pageId hindexable (by simpa using h.count) (by simp [hleaf])
  refine ⟨storage, hstore, ?_, fun other otherPage hout => ?_⟩
  · rw [stored, hleaf, hlevel] at hpage
    exact ⟨_, _, hpage⟩
  · exact hframe other otherPage (by simpa using hout)

theorem storeFork_ok {s : IndexStore σ} (pageId : PageId) (page : BTreePage)
    (hroot : page.pageType = .root) {separator : Bytes} {left right : PageId}
    (hseparator : separator ≠ [] ∧ separator.length ≤ 53)
    (hkeys : page.keys.map unowned = rootEntries separator left right) :
    ∃ storage, storePage pageId page 8192 s = .ok () { s with storage := storage } ∧
      ForkAt storage pageId separator left right ∧ Frames s.storage storage [pageId] := by
  have hindexable : ∀ tuple ∈ page.keys, Indexable tuple := by
    intro tuple htuple
    have hmem := List.mem_map_of_mem (f := unowned) htuple
    rw [hkeys] at hmem
    have hkey : (unowned tuple).key = separator := by
      simp only [rootEntries, List.mem_cons, List.not_mem_nil, or_false] at hmem
      rcases hmem with heq | heq <;> rw [heq]
    rw [unowned_key] at hkey
    exact ⟨hkey ▸ hseparator.1, hkey ▸ hseparator.2⟩
  have hcount : page.keys.length ≤ 128 := by
    have hlen := congrArg List.length hkeys
    simp only [List.length_map, rootEntries, List.length_cons, List.length_nil] at hlen
    omega
  obtain ⟨storage, hstore, hpage, hframe⟩ :=
    storePage_ok (s := s) pageId hindexable hcount (by simp [hroot])
  refine ⟨storage, hstore, ?_, fun other otherPage hout => ?_⟩
  · rw [stored, hroot, hkeys] at hpage
    exact ⟨_, _, _, hpage⟩
  · exact hframe other otherPage (by simpa using hout)

end Pages

section Leaves

variable {σ : Type} [StorageTrait σ] [LawfulStorage σ] {s : IndexStore σ} {pageId : PageId}
  {entries : List IndexTuple} {tuple : IndexTuple}

omit [LawfulStorage σ] in
theorem insertLeaf_eq (pageId : PageId) (entries : List IndexTuple) (left right : Option PageId)
    (tuple : IndexTuple) (isRoot : Bool) :
    insertLeaf pageId ⟨.leaf, pageId, 0, entries, left, right⟩ tuple 8192 isRoot =
      (if 128 ≤ entries.length then
        splitLeaf pageId ⟨.leaf, pageId, 0, entries, left, right⟩ tuple 8192 >>= fun split =>
          if isRoot then growRoot split.1 split.2.1 split.2.2 8192
          else pure (some split.2.1.pageId)
      else
        storePage pageId (BTreePage.insertSorted ⟨.leaf, pageId, 0, entries, left, right⟩ tuple)
          8192 >>= fun _ => pure none : Proc (IndexStore σ) (Option PageId)) := by
  have hpage : (if entries.isEmpty then
      ({ (⟨.leaf, pageId, 0, entries, left, right⟩ : BTreePage)
        with pageType := .leaf } : BTreePage)
      else ⟨.leaf, pageId, 0, entries, left, right⟩) = ⟨.leaf, pageId, 0, entries, left, right⟩ :=
    ite_self _
  have hfull : BTreePage.isFull ⟨.leaf, pageId, 0, entries, left, right⟩ 8192 =
      decide (128 ≤ entries.length) := rfl
  simp only [insertLeaf, hpage, hfull, decide_eq_true_eq]

theorem insertLeaf_room (s : IndexStore σ) (h : LeafEntries entries) (htuple : Indexable tuple)
    (hroom : entries.length < 128) (isRoot : Bool) (pageId : PageId)
    (left right : Option PageId) :
    ∃ storage, insertLeaf pageId ⟨.leaf, pageId, 0, entries, left, right⟩ tuple 8192 isRoot s =
        .ok none { s with storage := storage } ∧
      LeafAt storage pageId (put entries tuple) ∧ Frames s.storage storage [pageId] := by
  obtain ⟨storage, hstore, hleaf, hframe⟩ := storeLeaf_ok (s := s) pageId
    (BTreePage.insertSorted ⟨.leaf, pageId, 0, entries, left, right⟩ tuple) rfl rfl
    (h.put htuple hroom)
  refine ⟨storage, ?_, hleaf, hframe⟩
  rw [insertLeaf_eq, if_neg (not_le.mpr hroom), bind_ok hstore, pure_apply]

/-- The first key of the right half stays first when the tuple joins it. -/
theorem head_insertByKey (h : LeafEntries entries) (hcount : entries.length = 128)
    (hle : middleKey entries ≤ tuple.key) :
    ∃ push, (insertByKey IndexTuple.key (entries.drop 64) tuple).head? = some push ∧
      push.key = middleKey entries := by
  obtain ⟨first, rest, hdrop, hmiddle⟩ := exists_middle hcount
  have hperm := insertByKey_perm IndexTuple.key (h.drop 64).sorted tuple
  have hsorted := insertByKey_sorted IndexTuple.key (h.drop 64).sorted tuple
  cases hinserted : insertByKey IndexTuple.key (entries.drop 64) tuple with
  | nil =>
      rw [hinserted] at hperm
      exact absurd hperm.length_eq (by simp)
  | cons push others =>
      rw [hinserted] at hperm hsorted
      refine ⟨push, rfl, le_antisymm ?_ ?_⟩
      · have hmem : first ∈ push :: others := hperm.symm.subset (by simp [hdrop])
        rw [hmiddle]
        rcases List.mem_cons.mp hmem with rfl | hothers
        · exact le_rfl
        · exact (List.pairwise_cons.mp hsorted).1 first hothers
      · rcases List.mem_cons.mp (hperm.subset List.mem_cons_self) with rfl | hold
        · exact hle
        · exact middleKey_le_drop h hcount hold

/-- Both halves of a split and the key pushed up, as `placeTuple` leaves them. -/
theorem placeTuple_eq (h : LeafEntries entries) (hcount : entries.length = 128)
    (pageId rightId : PageId) (left right : Option PageId) (tuple : IndexTuple) :
    ∃ lower upper push,
      placeTuple ⟨.leaf, pageId, 0, entries.take 64, left, right⟩
          ⟨.leaf, rightId, 0, entries.drop 64, none, none⟩ tuple =
        (⟨.leaf, pageId, 0, lower, left, right⟩, ⟨.leaf, rightId, 0, upper, none, none⟩,
          some push) ∧
      lower.map unowned = lowerHalf entries tuple ∧ upper.map unowned = upperHalf entries tuple ∧
      push.key = middleKey entries := by
  unfold placeTuple lowerHalf upperHalf
  change ∃ lower upper push, (if tuple.key < middleKey entries then _ else _) = _ ∧ _
  split
  · obtain ⟨first, rest, hdrop, hmiddle⟩ := exists_middle hcount
    refine ⟨insertByKey IndexTuple.key (entries.take 64) tuple, entries.drop 64, first, ?_, rfl,
      (h.drop 64).map_unowned, hmiddle.symm⟩
    rw [hdrop]
    rfl
  · rename_i hle
    obtain ⟨push, hhead, hpush⟩ := head_insertByKey h hcount (not_lt.mp hle)
    refine ⟨entries.take 64, insertByKey IndexTuple.key (entries.drop 64) tuple, push, ?_,
      (h.take 64).map_unowned, rfl, hpush⟩
    rw [BTreePage.insertSorted, hhead]

theorem splitLeaf_ok (h : LeafEntries entries) (hcount : entries.length = 128)
    (htuple : Indexable tuple) {rightId : PageId} {ids : List PageId}
    (hids : s.pageIds = rightId :: ids) (hne : rightId ≠ pageId) (left right : Option PageId) :
    ∃ storage page rightPage push,
      splitLeaf pageId ⟨.leaf, pageId, 0, entries, left, right⟩ tuple 8192 s =
        .ok (page, rightPage, some push) ⟨storage, ids⟩ ∧
      page.pageId = pageId ∧ page.level = 0 ∧ rightPage.pageId = rightId ∧
      push.key = middleKey entries ∧ LeafAt storage pageId (lowerHalf entries tuple) ∧
      LeafAt storage rightId (upperHalf entries tuple) ∧
      Frames s.storage storage [pageId, rightId] := by
  have hsplit : BTreePage.splitAt ⟨.leaf, pageId, 0, entries, left, right⟩ (entries.length / 2) =
      some (⟨.leaf, pageId, 0, entries.take 64, left, right⟩,
        ⟨.leaf, ⟨0⟩, 0, entries.drop 64, none, none⟩) := by
    rw [BTreePage.splitAt, hcount, if_pos (by simp)]
    rfl
  have hnext : nextPageId s = .ok rightId { s with pageIds := ids } := by
    rw [nextPageId, hids]
  obtain ⟨lower, upper, push, hplace, hlower, hupper, hpush⟩ :=
    placeTuple_eq h hcount pageId rightId left right tuple
  obtain ⟨storage, hstore, hleaf, hframe⟩ :=
    storeLeaf_ok (s := { s with pageIds := ids }) pageId
      ⟨.leaf, pageId, 0, lower, left, right⟩ rfl rfl (by rw [hlower]; exact h.lowerHalf htuple)
  obtain ⟨storage', hstore', hleaf', hframe'⟩ :=
    storeLeaf_ok (s := ⟨storage, ids⟩) rightId
      ⟨.leaf, rightId, 0, upper, some pageId, none⟩ rfl rfl
      (by rw [hupper]; exact h.upperHalf htuple)
  refine ⟨storage', ⟨.leaf, pageId, 0, lower, left, right⟩,
    ⟨.leaf, rightId, 0, upper, some pageId, none⟩, push, ?_, rfl, rfl, rfl, hpush, ?_, ?_,
    hframe.trans hframe'⟩
  · unfold splitLeaf
    rw [hsplit, bind_ok (orPanic_some _ s)]
    dsimp only
    rw [bind_ok hnext, hplace]
    dsimp only
    rw [bind_ok hstore, bind_ok hstore']
    rfl
  · rw [← hlower]
    exact hframe'.leafAt (by simpa using hne.symm) hleaf
  · rw [← hupper]
    exact hleaf'

/-- A full leaf that is not the root. -/
theorem insertLeaf_split (h : LeafEntries entries) (hcount : entries.length = 128)
    (htuple : Indexable tuple) {rightId : PageId} {ids : List PageId}
    (hids : s.pageIds = rightId :: ids) (hne : rightId ≠ pageId) (left right : Option PageId) :
    ∃ storage, insertLeaf pageId ⟨.leaf, pageId, 0, entries, left, right⟩ tuple 8192 false s =
        .ok (some rightId) ⟨storage, ids⟩ ∧
      LeafAt storage rightId (upperHalf entries tuple) ∧
      Frames s.storage storage [pageId, rightId] := by
  obtain ⟨storage, page, rightPage, push, hsplit, -, -, hright, -, -, hupper, hframe⟩ :=
    splitLeaf_ok h hcount htuple hids hne left right
  refine ⟨storage, ?_, hupper, hframe⟩
  rw [insertLeaf_eq, if_pos hcount.ge, bind_ok hsplit]
  simp only [hright]
  rfl

/-- The root, as a full leaf: it gets a parent. -/
theorem insertLeaf_grow (h : LeafEntries entries) (hcount : entries.length = 128)
    (htuple : Indexable tuple) {rightId rootId : PageId} {ids : List PageId}
    (hids : s.pageIds = rightId :: rootId :: ids) (hne : rightId ≠ pageId)
    (hroot : rootId ≠ pageId ∧ rootId ≠ rightId) (left right : Option PageId) :
    ∃ storage, insertLeaf pageId ⟨.leaf, pageId, 0, entries, left, right⟩ tuple 8192 true s =
        .ok (some rootId) ⟨storage, ids⟩ ∧
      ForkAt storage rootId (middleKey entries) pageId rightId ∧
      LeafAt storage pageId (lowerHalf entries tuple) ∧
      LeafAt storage rightId (upperHalf entries tuple) := by
  obtain ⟨storage, page, rightPage, push, hsplit, hpageId, hlevel, hright, hpush, hlower, hupper,
    -⟩ := splitLeaf_ok h hcount htuple hids hne left right
  obtain ⟨storage', hstore, hfork, hframe⟩ := storeFork_ok (s := ⟨storage, ids⟩) rootId
    { BTreePage.new .root rootId with
      level := page.level + 1
      keys :=
        [{ push with heapPointer := (page.pageId.val, 0) },
          { push with heapPointer := (rightPage.pageId.val, 0) }] }
    rfl (middleKey_indexable h hcount)
    (by simp only [List.map_cons, List.map_nil, unowned, hpush, hpageId, hright]; rfl)
  refine ⟨storage', ?_, hfork, hframe.leafAt (by simpa using hroot.1.symm) hlower,
    hframe.leafAt (by simpa using hroot.2.symm) hupper⟩
  have hnext : nextPageId (⟨storage, rootId :: ids⟩ : IndexStore σ) = .ok rootId ⟨storage, ids⟩ :=
    rfl
  rw [insertLeaf_eq, if_pos hcount.ge, bind_ok hsplit]
  simp only [if_true]
  rw [growRoot, bind_ok hnext, if_pos (by simp [hlevel]), bind_ok (orPanic_some _ _)]
  simp only [Option.getD_some]
  rw [bind_ok hstore]
  rfl

end Leaves

section Descent

variable {σ : Type} [StorageTrait σ] {s : IndexStore σ} {rootPage left right : PageId}
  {separator : Bytes} {tuple : IndexTuple}

theorem lastChild_rootEntries (separator : Bytes) (left right : PageId) (key : Bytes) :
    lastChild key left (rootEntries separator left right) =
      if separator ≤ key then right else left := by
  by_cases hle : separator ≤ key
  · simp [rootEntries, lastChild, hle]
  · simp [rootEntries, lastChild, hle]

theorem repoint_left (separator : Bytes) (left right newChild : PageId) :
    repoint left newChild (rootEntries separator left right) =
      rootEntries separator newChild right := by
  simp [rootEntries, repoint]

theorem repoint_right (separator : Bytes) {left right : PageId} (hne : left ≠ right)
    (newChild : PageId) :
    repoint right newChild (rootEntries separator left right) =
      rootEntries separator left newChild := by
  have hval : left.val ≠ right.val := by
    intro heq
    exact hne (congrArg PageId.mk heq)
  simp [rootEntries, repoint, hval]

theorem insertRecursive_leaf {pageId : PageId} {entries : List IndexTuple}
    (h : LeafAt s.storage pageId entries) (tuple : IndexTuple) (fuel : Nat) (isRoot : Bool) :
    ∃ leftSibling rightSibling,
      insertRecursive tuple 8192 (fuel + 1) pageId isRoot s =
        insertLeaf pageId ⟨.leaf, pageId, 0, entries, leftSibling, rightSibling⟩ tuple 8192
          isRoot s := by
  obtain ⟨leftSibling, rightSibling, hpage⟩ := h
  refine ⟨leftSibling, rightSibling, ?_⟩
  rw [insertRecursive, bind_ok (fetchPage_ok hpage), if_pos (Or.inl rfl)]

theorem insertRecursive_fork (h : ForkAt s.storage rootPage separator left right)
    (tuple : IndexTuple) (fuel : Nat) (isRoot : Bool) :
    insertRecursive tuple 8192 (fuel + 1) rootPage isRoot s =
      (insertRecursive tuple 8192 fuel (if separator ≤ tuple.key then right else left) false >>=
        updateParent rootPage (if separator ≤ tuple.key then right else left) 8192) s := by
  obtain ⟨level, leftSibling, rightSibling, hpage⟩ := h
  rw [insertRecursive, bind_ok (fetchPage_ok hpage), if_neg (by simp [rootEntries])]
  have hchild : findChildPageId ⟨.root, rootPage, level, rootEntries separator left right,
      leftSibling, rightSibling⟩ tuple.key = if separator ≤ tuple.key then right else left :=
    lastChild_rootEntries separator left right tuple.key
  rw [hchild]

variable [LawfulStorage σ] {child : PageId} {entries : List IndexTuple}

/-- The root page after a leaf below it was split: the pointer to the leaf is
replaced, so that the page that was split is lost. -/
theorem updateParent_ok (h : ForkAt s.storage rootPage separator left right)
    (hseparator : separator ≠ [] ∧ separator.length ≤ 53) {newChild left' right' : PageId}
    (hrepoint : repoint child newChild (rootEntries separator left right) =
      rootEntries separator left' right') :
    ∃ storage, updateParent rootPage child 8192 (some newChild) s =
        .ok none { s with storage := storage } ∧
      ForkAt storage rootPage separator left' right' ∧ Frames s.storage storage [rootPage] := by
  obtain ⟨level, leftSibling, rightSibling, hpage⟩ := h
  obtain ⟨storage, hstore, hfork, hframe⟩ := storeFork_ok (s := s) rootPage
    ⟨.root, rootPage, level, rootEntries separator left' right', leftSibling, rightSibling⟩
    rfl hseparator rfl
  refine ⟨storage, ?_, hfork, hframe⟩
  rw [updateParent, bind_ok (fetchPage_ok hpage)]
  simp only [hrepoint]
  rw [if_neg (by simp [BTreePage.isFull, rootEntries]), bind_ok hstore, pure_apply]

theorem insert_room (hchild : (if separator ≤ tuple.key then right else left) = child)
    (hfork : ForkAt s.storage rootPage separator left right)
    (hleaf : LeafAt s.storage child entries) (h : LeafEntries entries) (htuple : Indexable tuple)
    (hroom : entries.length < 128) (fuel : Nat) :
    ∃ storage, insertRecursive tuple 8192 (fuel + 2) rootPage true s =
        .ok none { s with storage := storage } ∧
      LeafAt storage child (put entries tuple) ∧ Frames s.storage storage [child] := by
  obtain ⟨leftSibling, rightSibling, hinsert⟩ := insertRecursive_leaf hleaf tuple fuel false
  obtain ⟨storage, hok, hput, hframe⟩ := insertLeaf_room s h htuple hroom false child leftSibling
    rightSibling
  refine ⟨storage, ?_, hput, hframe⟩
  rw [insertRecursive_fork hfork, hchild, bind_ok (hinsert.trans hok)]
  rfl

theorem insert_split (hchild : (if separator ≤ tuple.key then right else left) = child)
    (hfork : ForkAt s.storage rootPage separator left right)
    (hseparator : separator ≠ [] ∧ separator.length ≤ 53)
    (hleaf : LeafAt s.storage child entries) (h : LeafEntries entries) (htuple : Indexable tuple)
    (hfull : entries.length = 128) {newChild left' right' : PageId} {ids : List PageId}
    (hids : s.pageIds = newChild :: ids) (hdistinct : [rootPage, child, newChild].Nodup)
    (hrepoint : repoint child newChild (rootEntries separator left right) =
      rootEntries separator left' right') (fuel : Nat) :
    ∃ storage, insertRecursive tuple 8192 (fuel + 2) rootPage true s = .ok none ⟨storage, ids⟩ ∧
      ForkAt storage rootPage separator left' right' ∧
      LeafAt storage newChild (upperHalf entries tuple) ∧
      Frames s.storage storage [child, newChild, rootPage] := by
  simp only [List.nodup_cons, List.mem_cons, List.not_mem_nil, or_false, not_or] at hdistinct
  obtain ⟨⟨hrootChild, hrootNew⟩, hchildNew, -⟩ := hdistinct
  obtain ⟨leftSibling, rightSibling, hinsert⟩ := insertRecursive_leaf hleaf tuple fuel false
  obtain ⟨storage, hok, hupper, hframe⟩ := insertLeaf_split h hfull htuple hids
    (Ne.symm hchildNew) leftSibling rightSibling
  have hfork' : ForkAt storage rootPage separator left right :=
    hframe.forkAt (by simp [hrootChild, hrootNew]) hfork
  obtain ⟨storage', hparent, hfork'', hframe'⟩ :=
    updateParent_ok (s := ⟨storage, ids⟩) hfork' hseparator hrepoint
  refine ⟨storage', ?_, hfork'', hframe'.leafAt (by simpa using Ne.symm hrootNew) hupper,
    hframe.trans hframe'⟩
  rw [insertRecursive_fork hfork, hchild, bind_ok (hinsert.trans hok), hparent]

end Descent

section Steps

variable {σ : Type} [StorageTrait σ]

/-- The pages of an index. -/
def pagesOf (rootPage : PageId) : Shape → List PageId
  | .single _ => [rootPage]
  | .fork _ left _ right _ => [rootPage, left, right]

def Stored (storage : σ) (rootPage : PageId) : Shape → Prop
  | .single entries => LeafAt storage rootPage entries
  | .fork separator left lefts right rights =>
      ForkAt storage rootPage separator left right ∧ LeafAt storage left lefts ∧
        LeafAt storage right rights

/-- The index under `rootPage` has this shape, and the allocator gives out none
of its pages. -/
structure Represents (s : IndexStore σ) (rootPage : PageId) (shape : Shape) : Prop where
  stored : Stored s.storage rootPage shape
  wellFormed : shape.WellFormed
  distinct : (pagesOf rootPage shape ++ s.pageIds).Nodup

theorem fetchForSearch_ok {s : IndexStore σ} {pageId : PageId} {page : BTreePage}
    (h : PageAt s.storage pageId page) : fetchForSearch pageId s = .ok page s := by
  rw [fetchForSearch, fetchPage_ok h]

/-- As many elements under each key, as many elements. -/
theorem length_eq_of_keys {α β κ : Type} [DecidableEq κ] {xs : List α} {ys : List β}
    (f : α → κ) (g : β → κ)
    (h : ∀ k, (xs.filter fun x => f x = k).length = (ys.filter fun y => g y = k).length) :
    xs.length = ys.length := by
  have hkeys : (xs.map f).Perm (ys.map g) := by
    apply List.perm_iff_count.mpr
    intro k
    have hlen := h k
    rw [← List.countP_eq_length_filter, ← List.countP_eq_length_filter] at hlen
    simpa [List.count, List.countP_map, Function.comp_def, beq_eq_decide] using hlen
  simpa using hkeys.length_eq

theorem searchPage_leaf {s : IndexStore σ} {pageId : PageId} {entries : List IndexTuple}
    (h : LeafAt s.storage pageId entries) (fuel : Nat) (key : Bytes) :
    searchPage key (fuel + 1) pageId s = .ok (entries.filter fun entry => entry.key = key) s := by
  obtain ⟨left, right, hpage⟩ := h
  rw [searchPage, bind_ok (fetchForSearch_ok hpage)]
  rfl

theorem filter_key_filter {p : IndexTuple → Bool} {key : Bytes} (entries : List IndexTuple)
    (hp : ∀ entry ∈ entries, entry.key = key → p entry = true) :
    (entries.filter p).filter (fun entry => entry.key = key) =
      entries.filter fun entry => entry.key = key := by
  rw [List.filter_filter]
  apply List.filter_congr
  intro entry hentry
  by_cases hkey : entry.key = key
  · simp [hkey, hp entry hentry hkey]
  · simp [hkey]

theorem filter_key_filter_not {p : IndexTuple → Bool} {key : Bytes} (entries : List IndexTuple)
    (hp : ∀ entry ∈ entries, entry.key = key → p entry = false) :
    (entries.filter p).filter (fun entry => entry.key = key) = [] := by
  rw [List.filter_filter, List.filter_eq_nil_iff]
  intro entry hentry
  by_cases hkey : entry.key = key
  · simp [hp entry hentry hkey]
  · simp [hkey]

theorem search_ok {s : IndexStore σ} {rootPage : PageId} {shape : Shape}
    (h : Represents s rootPage shape) (fuel : Nat) (key : Bytes) :
    btreeSearch (fuel + 2) rootPage key s =
      .ok (shape.searchable.filter fun entry => entry.key = key) s := by
  unfold btreeSearch
  cases shape with
  | single entries => exact searchPage_leaf h.stored (fuel + 1) key
  | fork separator left lefts right rights =>
      obtain ⟨⟨level, leftSibling, rightSibling, hpage⟩, hlefts, hrights⟩ := h.stored
      rw [searchPage, bind_ok (fetchForSearch_ok hpage)]
      have hchild : findDescendChild ⟨.root, rootPage, level, rootEntries separator left right,
          leftSibling, rightSibling⟩ key = if separator ≤ key then right else left :=
        lastChild_rootEntries separator left right key
      simp only [hchild, Shape.searchable, List.filter_append]
      by_cases hle : separator ≤ key
      · rw [if_pos hle, searchPage_leaf hrights,
          filter_key_filter_not lefts (fun entry _ hkey => by simpa [hkey] using hle),
          filter_key_filter rights (fun entry _ hkey => by simpa [hkey] using hle),
          List.nil_append]
      · rw [if_neg hle, searchPage_leaf hlefts,
          filter_key_filter lefts (fun entry _ hkey => by simpa [hkey] using hle),
          filter_key_filter_not rights (fun entry _ hkey => by simpa [hkey] using hle),
          List.append_nil]

variable [LawfulStorage σ] {s : IndexStore σ} {rootPage : PageId} {tuple : IndexTuple}

omit [LawfulStorage σ] in
theorem splitLeaf_panic (hids : s.pageIds = []) (pageId : PageId) (page : BTreePage) :
    splitLeaf pageId page tuple 8192 s = .panic := by
  unfold splitLeaf
  rw [bind_apply]
  cases hsplit : page.splitAt (page.keys.length / 2) with
  | none => rfl
  | some halves =>
      have hnext : nextPageId s = .panic := by rw [nextPageId, hids]
      exact bind_panic hnext

/-- Room for at most two more pages is needed. -/
def StepsTo (s : IndexStore σ) (rootPage : PageId) (tuple : IndexTuple) (shape : Shape)
    (outcome : Outcome (IndexStore σ) (Option PageId)) : Prop :=
  (outcome = .panic ∧ s.pageIds.length < 2) ∨
    ∃ answer s' shape', outcome = .ok answer s' ∧ shape.Step tuple shape' ∧
      Represents s' (answer.getD rootPage) shape' ∧ s.pageIds.length ≤ s'.pageIds.length + 2

theorem insert_single {entries : List IndexTuple}
    (h : Represents s rootPage (.single entries)) (htuple : Indexable tuple) (fuel : Nat) :
    StepsTo s rootPage tuple (.single entries)
      (insertRecursive tuple 8192 (fuel + 1) rootPage true s) := by
  have hentries : LeafEntries entries := h.wellFormed
  obtain ⟨left, right, hinsert⟩ := insertRecursive_leaf h.stored tuple fuel true
  rw [hinsert]
  rcases Nat.lt_or_eq_of_le hentries.count with hroom | hfull
  · obtain ⟨storage, hok, hleaf, -⟩ :=
      insertLeaf_room s hentries htuple hroom true rootPage left right
    have hstep : Shape.Step tuple (.single entries) (.single (put entries tuple)) := .room hroom
    exact Or.inr ⟨none, _, _, hok, hstep,
      ⟨hleaf, hstep.wellFormed htuple h.wellFormed, h.distinct⟩, Nat.le_add_right _ _⟩
  · have hdistinct := h.distinct
    cases hids : s.pageIds with
    | nil =>
        refine Or.inl ⟨?_, by simp [hids]⟩
        rw [insertLeaf_eq, if_pos hfull.ge]
        exact bind_panic (splitLeaf_panic hids _ _)
    | cons rightId ids =>
        rw [hids] at hdistinct
        simp only [pagesOf, List.cons_append, List.nil_append, List.nodup_cons, List.mem_cons,
          not_or] at hdistinct
        obtain ⟨⟨hright, hroot⟩, hrightIds, hnodup⟩ := hdistinct
        cases ids with
        | nil =>
            obtain ⟨storage, page, rightPage, push, hsplit, -⟩ :=
              splitLeaf_ok hentries hfull htuple hids (Ne.symm hright) left right
            refine Or.inl ⟨?_, by simp [hids]⟩
            rw [insertLeaf_eq, if_pos hfull.ge, bind_ok hsplit]
            rfl
        | cons rootId ids =>
            simp only [List.mem_cons, not_or, List.nodup_cons] at hroot hrightIds hnodup
            obtain ⟨storage, hok, hfork, hlower, hupper⟩ :=
              insertLeaf_grow hentries hfull htuple hids (Ne.symm hright)
                ⟨Ne.symm hroot.1, Ne.symm hrightIds.1⟩ left right
            have hstep : Shape.Step tuple (.single entries)
                (.fork (middleKey entries) rootPage (lowerHalf entries tuple) rightId
                  (upperHalf entries tuple)) := .grow hfull
            refine Or.inr ⟨some rootId, _, _, hok, hstep,
              ⟨⟨hfork, hlower, hupper⟩, hstep.wellFormed htuple h.wellFormed, ?_⟩, by simp [hids]⟩
            simp [pagesOf, hnodup, hroot, hrightIds, hright, Ne.symm hroot.1, Ne.symm hrightIds.1]

omit [LawfulStorage σ] in
theorem insertRecursive_panic {child : PageId} {separator : Bytes} {left right : PageId}
    {entries : List IndexTuple}
    (hchild : (if separator ≤ tuple.key then right else left) = child)
    (hfork : ForkAt s.storage rootPage separator left right)
    (hleaf : LeafAt s.storage child entries) (hfull : entries.length = 128)
    (hids : s.pageIds = []) (fuel : Nat) :
    insertRecursive tuple 8192 (fuel + 2) rootPage true s = .panic := by
  obtain ⟨leftSibling, rightSibling, hinsert⟩ := insertRecursive_leaf hleaf tuple fuel false
  rw [insertRecursive_fork hfork, hchild]
  apply bind_panic
  rw [hinsert, insertLeaf_eq, if_pos hfull.ge]
  exact bind_panic (splitLeaf_panic hids _ _)

theorem insert_fork {separator : Bytes} {left right : PageId} {lefts rights : List IndexTuple}
    (h : Represents s rootPage (.fork separator left lefts right rights))
    (htuple : Indexable tuple) (fuel : Nat) :
    StepsTo s rootPage tuple (.fork separator left lefts right rights)
      (insertRecursive tuple 8192 (fuel + 2) rootPage true s) := by
  obtain ⟨hfork, hleft, hright⟩ := h.stored
  obtain ⟨hlefts, hrights, -, hseparator⟩ := h.wellFormed
  have hdistinct := h.distinct
  simp only [pagesOf, List.cons_append, List.nil_append, List.nodup_cons, List.mem_cons,
    not_or] at hdistinct
  obtain ⟨⟨hrootLeft, hrootRight, hrootIds⟩, ⟨hleftRight, hleftIds⟩, hrightIds, hnodup⟩ :=
    hdistinct
  by_cases hkey : separator ≤ tuple.key
  · have hchild : (if separator ≤ tuple.key then right else left) = right := if_pos hkey
    rcases Nat.lt_or_eq_of_le hrights.count with hroom | hfull
    · obtain ⟨storage, hok, hput, hframe⟩ :=
        insert_room hchild hfork hright hrights htuple hroom fuel
      have hstep : Shape.Step tuple (.fork separator left lefts right rights)
          (.fork separator left lefts right (put rights tuple)) := .rightRoom hkey hroom
      exact Or.inr ⟨none, _, _, hok, hstep,
        ⟨⟨hframe.forkAt (by simpa using hrootRight) hfork,
          hframe.leafAt (by simpa using hleftRight) hleft, hput⟩,
          hstep.wellFormed htuple h.wellFormed, h.distinct⟩, Nat.le_add_right _ _⟩
    · cases hids : s.pageIds with
      | nil =>
          exact Or.inl ⟨insertRecursive_panic hchild hfork hright hfull hids fuel, by simp [hids]⟩
      | cons newChild ids =>
          simp only [hids, List.mem_cons, not_or, List.nodup_cons]
            at hrootIds hleftIds hrightIds hnodup
          obtain ⟨storage, hok, hfork', hupper, hframe⟩ :=
            insert_split hchild hfork hseparator hright hrights htuple hfull hids
              (by simp [hrootRight, hrootIds, hrightIds])
              (repoint_right separator hleftRight newChild) fuel
          have hstep : Shape.Step tuple (.fork separator left lefts right rights)
              (.fork separator left lefts newChild (upperHalf rights tuple)) :=
            .rightSplit hkey hfull
          refine Or.inr ⟨none, _, _, hok, hstep,
            ⟨⟨hfork', hframe.leafAt (by simp [hleftRight, hleftIds, Ne.symm hrootLeft]) hleft,
              hupper⟩, hstep.wellFormed htuple h.wellFormed, ?_⟩, by simp [hids]⟩
          simp [pagesOf, hrootLeft, hrootIds, hleftIds, hnodup]
  · have hchild : (if separator ≤ tuple.key then right else left) = left := if_neg hkey
    rcases Nat.lt_or_eq_of_le hlefts.count with hroom | hfull
    · obtain ⟨storage, hok, hput, hframe⟩ :=
        insert_room hchild hfork hleft hlefts htuple hroom fuel
      have hstep : Shape.Step tuple (.fork separator left lefts right rights)
          (.fork separator left (put lefts tuple) right rights) :=
        .leftRoom (not_le.mp hkey) hroom
      exact Or.inr ⟨none, _, _, hok, hstep,
        ⟨⟨hframe.forkAt (by simpa using hrootLeft) hfork, hput,
          hframe.leafAt (by simpa using Ne.symm hleftRight) hright⟩,
          hstep.wellFormed htuple h.wellFormed, h.distinct⟩, Nat.le_add_right _ _⟩
    · cases hids : s.pageIds with
      | nil =>
          exact Or.inl ⟨insertRecursive_panic hchild hfork hleft hfull hids fuel, by simp [hids]⟩
      | cons newChild ids =>
          simp only [hids, List.mem_cons, not_or, List.nodup_cons]
            at hrootIds hleftIds hrightIds hnodup
          obtain ⟨storage, hok, hfork', hupper, hframe⟩ :=
            insert_split hchild hfork hseparator hleft hlefts htuple hfull hids
              (by simp [hrootLeft, hrootIds, hleftIds])
              (repoint_left separator left right newChild) fuel
          have hstep : Shape.Step tuple (.fork separator left lefts right rights)
              (.fork separator newChild (upperHalf lefts tuple) right rights) :=
            .leftSplit (not_le.mp hkey) hfull
          refine Or.inr ⟨none, _, _, hok, hstep,
            ⟨⟨hfork', hupper, hframe.leafAt
              (by simp [Ne.symm hleftRight, hrightIds, Ne.symm hrootRight]) hright⟩,
              hstep.wellFormed htuple h.wellFormed, ?_⟩, by simp [hids]⟩
          simp [pagesOf, hrootRight, hrootIds, hrightIds, hnodup, Ne.symm hrightIds.1]

/-- One insertion takes the index from one shape to the next. -/
theorem insert_step {shape : Shape} (h : Represents s rootPage shape) (htuple : Indexable tuple)
    (fuel : Nat) :
    (btreeInsertMultipage (fuel + 2) rootPage tuple 8192 s = .panic ∧ s.pageIds.length < 2) ∨
      ∃ rootPage' s' shape',
        btreeInsertMultipage (fuel + 2) rootPage tuple 8192 s = .ok rootPage' s' ∧
        shape.Step tuple shape' ∧ Represents s' rootPage' shape' ∧
        s.pageIds.length ≤ s'.pageIds.length + 2 := by
  have hsteps : StepsTo s rootPage tuple shape
      (insertRecursive tuple 8192 (fuel + 2) rootPage true s) := by
    cases shape with
    | single entries => exact insert_single h htuple (fuel + 1)
    | fork separator left lefts right rights => exact insert_fork h htuple fuel
  unfold btreeInsertMultipage
  rcases hsteps with ⟨hpanic, hids⟩ | ⟨answer, s', shape', hok, hstep, hshape', hids⟩
  · exact Or.inl ⟨bind_panic hpanic, hids⟩
  · exact Or.inr ⟨_, s', shape', bind_ok hok, hstep, hshape', hids⟩

end Steps

end PostgressRs.Btree.TreeSteps
