import PostgressRs.Executor.RowVersions
import PostgressRs.Executor.VersionChanges

/-!
The versions that fetches of a relation's pages find, from the pool or from disk,
and what an insert adds to them.
-/

namespace PostgressRs.Executor.FetchedVersions

open PostgressRs.BufferCache.PagePool
open PostgressRs.BufferCache.PinnedPool
open PostgressRs.BufferCache.SharedCache
open PostgressRs.Executor.HeapAccess
open PostgressRs.Executor.HeapContents
open PostgressRs.Executor.HeapInvariant
open PostgressRs.Executor.HeapSteps
open PostgressRs.Executor.RowVersions
open PostgressRs.Executor.VacuumEffects
open PostgressRs.Executor.VersionChanges
open PostgressRs.Lib.ByteBuffer
open PostgressRs.Lib.Procedure
open PostgressRs.Storage.PageContents
open PostgressRs.Storage.PageRoundTrip
open PostgressRs.Storage.PageStore
open PostgressRs.Storage.SlottedPage
open PostgressRs.Txn.TransactionTable
open PostgressRs.Types
open PostgressRs.Wal.LogRecord

variable [Bincode] {σ : Type} [StorageTrait σ]

section Fetches

/-- The versions on a page, in the order of their slots. -/
def pageVersions (page : HeapPage) : List Tuple :=
  (contents page).filterMap fun bytes => (deserializeTuple bytes).toOption

/-- The versions that a fetch of `p` finds. -/
def fetched (disk : PoolState σ) (p : PageId) : List Tuple :=
  ((pooledPage disk p).map pageVersions).getD []

def fetchedVersions (disk : PoolState σ) (ids : List PageId) : List Tuple :=
  ids.flatMap (fetched disk)

omit [Bincode] [StorageTrait σ] in
/-- The values of the versions that the snapshot shows. -/
def shownValues (snapshot : Snapshot) (desc : TupleDesc) (versions : List Tuple) :
    List (List String) :=
  (versions.filter fun tup => isVisible tup snapshot).map fun tup => decodeTupleValues tup desc

variable {disk disk' : PoolState σ} {p : PageId} {ids : List PageId} {page : HeapPage}

theorem fetched_eq (h : pooledRead disk p = .ok (image page)) (hpage : WellFormed page) :
    fetched disk p = pageVersions page := by
  rw [fetched, pooledPage, h]
  simp only [decoded, deserialize_image hpage, Option.map_some, Option.getD_some]
  rw [pageVersions, pageVersions, contents_stored]

theorem fetched_congr (h : pooledRead disk' p = pooledRead disk p) :
    fetched disk' p = fetched disk p := by
  rw [fetched, fetched, pooledPage, pooledPage, h]

theorem fetched_of_read (hpool : disk'.pool = disk.pool)
    (h : readPage disk'.storage p = readPage disk.storage p) :
    fetched disk' p = fetched disk p := by
  apply fetched_congr
  rw [pooledRead, pooledRead, hpool, h]

theorem fetched_of_mapped (hpool : disk'.pool = disk.pool) (h : slotOf disk.pool p ≠ none) :
    fetched disk' p = fetched disk p := by
  obtain ⟨⟨i, buf⟩, hslot⟩ := Option.ne_none_iff_exists'.mp h
  apply fetched_congr
  rw [pooledRead_slot hslot, pooledRead_slot (by rw [hpool]; exact hslot)]

theorem fetched_of_unmapped (h : slotOf disk.pool p = none)
    (hread : readPage disk.storage p = .ok (image page)) (hpage : WellFormed page) :
    fetched disk p = pageVersions page :=
  fetched_eq ((pooledRead_disk h).trans hread) hpage

theorem fetched_of_pageAt (h : slotOf disk.pool p = none) (hpage : PageAt disk.storage p page) :
    fetched disk p = pageVersions page := by
  have hat : pooledPage disk p = some page := by
    rw [pooledPage, pooledRead_disk h]
    exact pageOf_eq_some.mpr hpage
  rw [fetched, hat]
  rfl

theorem fetchedVersions_append (disk : PoolState σ) (ids ids' : List PageId) :
    fetchedVersions disk (ids ++ ids') = fetchedVersions disk ids ++ fetchedVersions disk ids' :=
  List.flatMap_append

theorem fetchedVersions_singleton (disk : PoolState σ) (p : PageId) :
    fetchedVersions disk [p] = fetched disk p := List.append_nil _

theorem fetchedVersions_congr (h : ∀ p ∈ ids, fetched disk' p = fetched disk p) :
    fetchedVersions disk' ids = fetchedVersions disk ids :=
  List.flatMap_congr h

omit [StorageTrait σ] in
theorem visibleValues_shown (snapshot : Snapshot) (desc : TupleDesc) (encoded : List Bytes) :
    encoded.filterMap (visibleValues desc snapshot) =
      shownValues snapshot desc
        (encoded.filterMap fun bytes => (deserializeTuple bytes).toOption) := by
  rw [shownValues, ← List.filterMap_eq_map, ← List.filterMap_eq_filter, List.filterMap_filterMap,
    List.filterMap_filterMap]
  congr 1
  funext bytes
  unfold visibleValues
  cases deserializeTuple bytes with
  | error e => rfl
  | ok tup =>
      by_cases hvisible : isVisible tup snapshot = true
      · simp [Except.toOption, Option.guard, hvisible]
      · simp [Except.toOption, Option.guard, hvisible]

variable [LawfulBincode] {P : Tuple → Prop}

/-- A scan through the pool shows the visible ones of the versions fetched. -/
theorem scanRows_fetched (desc : TupleDesc) (snapshot : Snapshot)
    (hpooled : ∀ p ∈ ids, PooledAt P disk p) :
    (scanRows (pooledPage disk) desc snapshot ids).map Prod.snd =
      shownValues snapshot desc (fetchedVersions disk ids) := by
  induction ids with
  | nil => rfl
  | cons p ids ih =>
      obtain ⟨page, hpage, hread, hat⟩ := pooledPage_of_pooledAt (hpooled p List.mem_cons_self)
      have hrest := ih fun q hq => hpooled q (List.mem_cons_of_mem _ hq)
      have hpage' : (pageRows p (stored page).tuples desc snapshot none).map Prod.snd =
          shownValues snapshot desc (fetched disk p) := by
        rw [pageRows_values, fetched_eq hread hpage.wellFormed, pageVersions, ← visibleValues_shown]
        exact filterMap_restored _ visibleValues_nil _ _
      rw [scanRows, List.flatMap_cons, hat]
      simp only
      rw [List.map_append, hpage', ← scanRows, hrest, shownValues, shownValues, ← List.map_append,
        ← List.filter_append]
      rfl

end Fetches

section Insert

variable [LawfulStorage σ] [LawfulBincode] {relOid : Oid} {rel rel' : Relation}
  {db db' : Database σ} {values : List Bytes}

omit [LawfulBincode] [StorageTrait σ] [LawfulStorage σ] in
theorem pageVersions_new : pageVersions HeapPage.new = [] := rfl

omit [StorageTrait σ] [LawfulStorage σ] in
theorem pageVersions_addTuple {page page' : HeapPage} {tup : Tuple} {encoded : Bytes}
    {slot : UInt16} (hpage : WellFormed page) (hcode : serializeTuple tup = .ok encoded)
    (h : page.addTuple encoded = some (page', some slot)) :
    Grows tup (pageVersions page) (pageVersions page') := by
  refine (contents_addTuple hpage h).filterMap ?_
  rw [LawfulBincode.deserialize_serialize hcode]
  rfl

/-- The pool and the store once the relation has a page. -/
def openDisk (disk : PoolState σ) (rel : Relation) : PoolState σ :=
  { disk with storage := openStorage disk.storage rel }

omit [LawfulBincode] in
theorem fetchedVersions_open {P : Tuple → Prop} (h : Sane P relOid rel db) :
    fetchedVersions (openDisk db.cache.disk rel) (openPages rel) =
      fetchedVersions db.cache.disk rel.pages := by
  cases hlast : rel.pages.getLast? with
  | none =>
      have hnil := List.getLast?_eq_none_iff.mp hlast
      have hunmapped : slotOf (openDisk db.cache.disk rel).pool ⟨1⟩ = none := by
        by_contra hmapped
        have hmem := h.mem_of_mapped hmapped
        rw [hnil] at hmem
        cases hmem
      have hread : readPage (openDisk db.cache.disk rel).storage ⟨1⟩ =
          .ok (image HeapPage.new) := by
        simp only [openDisk, openStorage, hlast]
        exact LawfulStorage.read_write_self _ _ _
      rw [hnil]
      simp only [openPages, hlast]
      rw [fetchedVersions_singleton, fetched_of_unmapped hunmapped hread wellFormed_new,
        pageVersions_new]
      rfl
  | some p => simp only [openDisk, openStorage, openPages, hlast]

omit [LawfulBincode] in
/-- Fetches after a write to the page that inserts go to. -/
theorem fetchedVersions_written (h : Sane (fun _ => True) relOid rel db) {disk' : PoolState σ}
    (hpool : disk'.pool = (openDisk db.cache.disk rel).pool)
    (hother : ∀ q ∈ openPages rel, q ≠ openPage rel →
      readPage disk'.storage q = readPage (openStorage db.cache.disk.storage rel) q) :
    ∃ front, fetchedVersions db.cache.disk rel.pages =
        front ++ fetched (openDisk db.cache.disk rel) (openPage rel) ∧
      fetchedVersions disk' (openPages rel) = front ++ fetched disk' (openPage rel) := by
  obtain ⟨front, hfront⟩ := openPages_snoc rel
  refine ⟨fetchedVersions (openDisk db.cache.disk rel) front, ?_, ?_⟩
  · rw [← fetchedVersions_open h, hfront, fetchedVersions_append, fetchedVersions_singleton]
  · rw [hfront, fetchedVersions_append, fetchedVersions_singleton]
    congr 1
    apply fetchedVersions_congr
    intro q hq
    apply fetched_of_read hpool
    refine hother q (by rw [hfront]; exact List.mem_append_left _ hq) ?_
    rintro rfl
    exact openPage_not_mem h.increasing hfront hq

section Written

variable {disk' : PoolState σ} {page page' : HeapPage} {encoded data : Bytes}

/-- The new tuple is found in the page it was written to, unless the pool has the page. -/
theorem fetchedVersions_added {slot : UInt16} (h : Sane (fun _ => True) relOid rel db)
    (hpage : PageAt (openStorage db.cache.disk.storage rel) (openPage rel) page)
    (hencoded : serializeTuple (newTuple values db.wal.currentXid) = .ok encoded)
    (hadd : page.addTuple encoded = some (page', some slot)) (hdata : page'.serialize = some data)
    (hpool : disk'.pool = (openDisk db.cache.disk rel).pool)
    (hread : readPage disk'.storage (openPage rel) = .ok data)
    (hother : ∀ q ∈ openPages rel, q ≠ openPage rel →
      readPage disk'.storage q = readPage (openStorage db.cache.disk.storage rel) q) :
    fetchedVersions disk' (openPages rel) = fetchedVersions db.cache.disk rel.pages ∨
      Lands db rel values ∧
        Grows (newTuple values db.wal.currentXid) (fetchedVersions db.cache.disk rel.pages)
          (fetchedVersions disk' (openPages rel)) := by
  obtain ⟨page₀, hholds, rfl⟩ := holds_of_pageAt (codedAt_open (h.coded _)) hpage
  have hwf := wellFormed_stored hholds.wellFormed
  have hwf' := wellFormed_addTuple hwf (serializeTuple_ne_nil hencoded) hadd
  obtain rfl := serialize_image hwf' hdata
  have hroom : ¬PageFull db rel values := not_pageFull hpage hencoded hadd
  obtain ⟨front, hbefore, hafter⟩ := fetchedVersions_written h hpool hother
  rw [hbefore, hafter]
  by_cases hunmapped : slotOf (openDisk db.cache.disk rel).pool (openPage rel) = none
  · right
    rw [fetched_of_pageAt hunmapped hpage,
      fetched_of_unmapped (by rw [hpool]; exact hunmapped) hread hwf']
    exact ⟨⟨Or.inl hunmapped, fun hfull => absurd hfull hroom⟩,
      (pageVersions_addTuple hwf hencoded hadd).append_left front⟩
  · left
    rw [fetched_of_mapped hpool hunmapped]

omit [LawfulBincode] in
/-- A page that was written back as it was is fetched as before. -/
theorem fetched_rewritten (h : Sane (fun _ => True) relOid rel db)
    (hpage : PageAt (openStorage db.cache.disk.storage rel) (openPage rel) page)
    (hdata : page.serialize = some data)
    (hpool : disk'.pool = (openDisk db.cache.disk rel).pool)
    (hread : readPage disk'.storage (openPage rel) = .ok data) :
    fetched disk' (openPage rel) = fetched (openDisk db.cache.disk rel) (openPage rel) := by
  obtain ⟨page₀, hholds, rfl⟩ := holds_of_pageAt (codedAt_open (h.coded _)) hpage
  have hwf := wellFormed_stored hholds.wellFormed
  obtain rfl := serialize_image hwf hdata
  by_cases hmapped : slotOf (openDisk db.cache.disk rel).pool (openPage rel) = none
  · rw [fetched_of_pageAt hmapped hpage,
      fetched_of_unmapped (by rw [hpool]; exact hmapped) hread hwf]
  · exact fetched_of_mapped hpool hmapped

/-- The new tuple is found in the page that was appended for it, if it fits. -/
theorem fetchedVersions_extended {slot : Option UInt16} {next : PageId} {data' : Bytes}
    (h : Sane (fun _ => True) relOid rel db)
    (hpage : PageAt (openStorage db.cache.disk.storage rel) (openPage rel) page)
    (hencoded : serializeTuple (newTuple values db.wal.currentXid) = .ok encoded)
    (hadd : page.addTuple encoded = some (page, none))
    (hnext : nextPageId (openPage rel) = some next)
    (hnew : HeapPage.new.addTuple encoded = some (page', slot))
    (hdata' : page'.serialize = some data') (hdata : page.serialize = some data)
    (hpool : disk'.pool = (openDisk db.cache.disk rel).pool)
    (hread : readPage disk'.storage (openPage rel) = .ok data)
    (hreadNext : readPage disk'.storage next = .ok data')
    (hother : ∀ q ∈ openPages rel, q ≠ openPage rel →
      readPage disk'.storage q = readPage (openStorage db.cache.disk.storage rel) q) :
    fetchedVersions disk' (openPages rel ++ [next]) = fetchedVersions db.cache.disk rel.pages ∨
      Lands db rel values ∧
        Grows (newTuple values db.wal.currentXid) (fetchedVersions db.cache.disk rel.pages)
          (fetchedVersions disk' (openPages rel ++ [next])) := by
  have hwf' := wellFormed_addTuple wellFormed_new (serializeTuple_ne_nil hencoded) hnew
  obtain rfl := serialize_image hwf' hdata'
  obtain ⟨front, hbefore, hafter⟩ := fetchedVersions_written h hpool hother
  have hunmapped : slotOf disk'.pool next = none := by
    rw [hpool]
    by_contra hmapped
    have hmem := (prefix_openPages rel).subset (h.mem_of_mapped hmapped)
    exact ne_nextPageId h.increasing hmem hnext rfl
  rw [fetchedVersions_append, hafter, fetched_rewritten h hpage hdata hpool hread, ← hbefore,
    fetchedVersions_singleton, fetched_of_unmapped hunmapped hreadNext hwf']
  cases slot with
  | none =>
      obtain ⟨rfl, _⟩ := addTuple_none hnew
      left
      rw [pageVersions_new, List.append_nil]
  | some slot =>
      have hfull : PageFull db rel values := ⟨_, encoded, hpage, hencoded, hadd⟩
      have hgrows := (pageVersions_addTuple wellFormed_new hencoded hnew).append_left
        (fetchedVersions db.cache.disk rel.pages)
      rw [pageVersions_new, List.append_nil] at hgrows
      exact Or.inr ⟨⟨Or.inr hfull, fun _ => ⟨encoded, page', slot, hencoded, hnew⟩⟩, hgrows⟩

end Written

/-- An insert, failed or not, adds at most the new tuple to what fetches find, and
only if it lands. -/
theorem inserted_fetched (h : Sane (fun _ => True) relOid rel db)
    (hins : Inserted db.cache relOid (newTuple values db.wal.currentXid) db'.cache)
    (hrel' : db'.cache.rels.lookup relOid = some rel') :
    fetchedVersions db'.cache.disk rel'.pages = fetchedVersions db.cache.disk rel.pages ∨
      Lands db rel values ∧
        Grows (newTuple values db.wal.currentXid) (fetchedVersions db.cache.disk rel.pages)
          (fetchedVersions db'.cache.disk rel'.pages) := by
  generalize db'.cache = cache' at hins hrel' ⊢
  cases hins with
  | unchanged =>
      rw [h.registered] at hrel'
      cases hrel'
      exact Or.inl rfl
  | opened hrel₁ =>
      rw [h.registered] at hrel₁
      cases hrel₁
      have hsame : db.cache.rels.lookup relOid = some rel' := hrel'
      rw [h.registered] at hsame
      cases hsame
      left
      apply fetchedVersions_congr
      intro p hp
      have hpool : (withStorage db.cache (openStorage db.cache.disk.storage rel)).disk.pool =
          db.cache.disk.pool := rfl
      apply fetched_of_read hpool
      simp only [withStorage, openStorage_of_mem hp]
  | added hrel₁ hpage hencoded hadd hdata =>
      rw [h.registered] at hrel₁
      cases hrel₁
      simp only [AList.lookup_insert, Option.some.injEq] at hrel'
      subst hrel'
      apply fetchedVersions_added h hpage hencoded hadd hdata
      · rfl
      · exact LawfulStorage.read_write_self _ _ _
      · intro q _ hne
        exact LawfulStorage.read_write_of_ne _ _ _ _ hne
  | extended hrel₁ hpage hencoded hadd hnext hnew hdata' hdata =>
      rw [h.registered] at hrel₁
      cases hrel₁
      simp only [AList.lookup_insert, Option.some.injEq] at hrel'
      subst hrel'
      have hneNext {q : PageId} (hq : q ∈ openPages rel) := ne_nextPageId h.increasing hq hnext
      have hopen := hneNext (openPage_mem_openPages rel)
      apply fetchedVersions_extended h hpage hencoded hadd hnext hnew hdata' hdata
      · rfl
      · exact LawfulStorage.read_write_self _ _ _
      · exact (LawfulStorage.read_write_of_ne _ _ _ _ hopen.symm).trans
          (LawfulStorage.read_write_self _ _ _)
      · intro q hq hne
        exact (LawfulStorage.read_write_of_ne _ _ _ _ hne).trans
          (LawfulStorage.read_write_of_ne _ _ _ _ (hneNext hq))

end Insert

end PostgressRs.Executor.FetchedVersions
