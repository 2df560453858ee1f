import PostgressRs.Executor.HeapContents

/-!
The invariant of one relation under inserts, updates, deletes, vacuum and scans,
and what a scan through the pool returns.
-/

namespace PostgressRs.Executor.HeapInvariant

open PostgressRs.BufferCache.PagePool
open PostgressRs.BufferCache.PinnedPool
open PostgressRs.BufferCache.SharedCache
open PostgressRs.Executor.HeapAccess
open PostgressRs.Executor.HeapContents
open PostgressRs.Executor.HeapSteps
open PostgressRs.Lib.ByteBuffer
open PostgressRs.Lib.Procedure
open PostgressRs.Storage.PageContents
open PostgressRs.Storage.PageRoundTrip
open PostgressRs.Storage.PageStore
open PostgressRs.Storage.SlottedPage
open PostgressRs.Txn.TransactionTable
open PostgressRs.Types
open PostgressRs.Wal.LogRecord
open PostgressRs.Wal.WriteAheadLog

section Scans

variable [Bincode] {σ : Type} [StorageTrait σ]

/-- The page that a fetch of `p` finds. -/
def pooledPage (disk : PoolState σ) (p : PageId) : Option HeapPage := decoded (pooledRead disk p)

/-- The rows of the pages that `view` shows. -/
def scanRows (view : PageId → Option HeapPage) (desc : TupleDesc) (snapshot : Snapshot)
    (ids : List PageId) : List Row :=
  ids.flatMap fun p =>
    match view p with
    | some page => pageRows p page.tuples desc snapshot none
    | none => []

theorem scanRows_congr {view view' : PageId → Option HeapPage} (desc : TupleDesc)
    (snapshot : Snapshot) {ids : List PageId}
    (h : ∀ p ∈ ids, (view' p).map HeapPage.tuples = (view p).map HeapPage.tuples) :
    scanRows view' desc snapshot ids = scanRows view desc snapshot ids := by
  apply List.flatMap_congr
  intro p hp
  have htuples := h p hp
  cases hview : view p with
  | none =>
      rw [hview] at htuples
      rw [Option.map_eq_none_iff.mp htuples]
  | some page =>
      rw [hview] at htuples
      obtain ⟨page', hpage', heq⟩ := Option.map_eq_some_iff.mp htuples
      rw [hpage']
      simp only [heq]

theorem scanPages_rows {db : Database σ} (desc : TupleDesc) (snapshot : Snapshot)
    {ids : List PageId} (h : ∀ p ∈ ids, ∃ page, PageAt db.cache.disk.storage p page) :
    scanPages desc snapshot none ids db =
      .ok (scanRows (pageOf db.cache.disk.storage) desc snapshot ids) db := by
  induction ids with
  | nil => rfl
  | cons p ids ih =>
      obtain ⟨page, hpage⟩ := h p List.mem_cons_self
      have hrest := ih fun q hq => h q (List.mem_cons_of_mem _ hq)
      rw [scanPages, bind_ok (readHeapPage_eq_ok.mpr ⟨hpage, rfl⟩), bind_ok hrest]
      simp only [scanRows, List.flatMap_cons, pageOf_eq_some.mpr hpage, pure_apply]

omit [StorageTrait σ] in
theorem scanFetched_rows {db : Database σ} (desc : TupleDesc) (snapshot : Snapshot)
    {ids : List PageId} {fetched : List (PageId × Bytes)} {view : PageId → Option HeapPage}
    (h : List.Forall₂ (fun p entry => entry.1 = p ∧
      ∃ page, HeapPage.deserialize entry.2 = some page ∧ view p = some page) ids fetched) :
    scanFetched desc snapshot fetched db = .ok (scanRows view desc snapshot ids) db := by
  induction h with
  | nil => rfl
  | @cons p entry ids fetched hentry _ ih =>
      obtain ⟨q, data⟩ := entry
      obtain ⟨rfl, page, hpage, hview⟩ := hentry
      have hread : (orPanic (HeapPage.deserialize data) : Proc (Database σ) HeapPage) db =
          .ok page db := orPanic_eq_ok.mpr ⟨hpage, rfl⟩
      rw [scanFetched, bind_ok hread, bind_ok ih]
      simp only [scanRows, List.flatMap_cons, hview, pure_apply]

end Scans

section Invariant

variable [Bincode] {σ : Type} [StorageTrait σ]

/-- A fetch of `p` finds a page of encodings of tuples that satisfy `P`. -/
def PooledAt (P : Tuple → Prop) (disk : PoolState σ) (p : PageId) : Prop :=
  ∃ page, Holds (Coded P) page ∧ pooledRead disk p = .ok (image page)

/-- A relation's pages are numbered upwards and hold encodings, on disk and in
the pool, and no other page is in the pool. -/
structure Sane (P : Tuple → Prop) (relOid : Oid) (rel : Relation) (db : Database σ) : Prop where
  registered : db.cache.rels.lookup relOid = some rel
  increasing : rel.pages.Pairwise fun p q => p.val < q.val
  coded : ∀ p ∈ rel.pages, CodedAt P db.cache.disk.storage p
  pooled : ∀ p ∈ rel.pages, PooledAt P db.cache.disk p
  pinned : Pinned db.cache.disk.pool rel.pages
  poolSize_eq : db.cache.disk.pool.poolSize = 1024

variable {P : Tuple → Prop} {relOid : Oid} {rel rel' : Relation} {db db' : Database σ}

theorem pooledPage_of_pooledAt {disk : PoolState σ} {p : PageId} (h : PooledAt P disk p) :
    ∃ page, Holds (Coded P) page ∧ pooledRead disk p = .ok (image page) ∧
      pooledPage disk p = some (stored page) := by
  obtain ⟨page, hpage, hread⟩ := h
  refine ⟨page, hpage, hread, ?_⟩
  rw [pooledPage, hread]
  exact deserialize_image hpage.wellFormed

theorem Sane.nodup (h : Sane P relOid rel db) : rel.pages.Nodup := by
  apply h.increasing.imp
  rintro p q hlt rfl
  exact absurd hlt (UInt32.lt_irrefl _)

/-- The pool holds pages of the relation only. -/
theorem Sane.mem_of_mapped (h : Sane P relOid rel db) {p : PageId}
    (hp : slotOf db.cache.disk.pool p ≠ none) : p ∈ rel.pages := by
  obtain ⟨⟨i, buf⟩, hslot⟩ := Option.ne_none_iff_exists'.mp hp
  exact h.pinned.mapped_mem p i (slotOf_eq_some.mp hslot).1

theorem Sane.of_cache (h : Sane P relOid rel db) (hcache : db'.cache = db.cache) :
    Sane P relOid rel db' := by
  refine ⟨?_, h.increasing, ?_, ?_, ?_, ?_⟩
  · rw [hcache]
    exact h.registered
  · rw [hcache]
    exact h.coded
  · rw [hcache]
    exact h.pooled
  · rw [hcache]
    exact h.pinned
  · rw [hcache]
    exact h.poolSize_eq

/-- An invariant state after a write that leaves the pool alone. -/
theorem Sane.rewrite (h : Sane P relOid rel db)
    (hpool : db'.cache.disk.pool = db.cache.disk.pool)
    (hrel : db'.cache.rels.lookup relOid = some rel')
    (hincreasing : rel'.pages.Pairwise fun p q => p.val < q.val)
    (hsub : ∀ p ∈ rel.pages, p ∈ rel'.pages)
    (hcoded : ∀ p ∈ rel'.pages, CodedAt P db'.cache.disk.storage p) : Sane P relOid rel' db' := by
  refine ⟨hrel, hincreasing, hcoded, ?_, ?_, ?_⟩
  · intro p hp
    cases hslot : slotOf db.cache.disk.pool p with
    | none =>
        obtain ⟨page, hpage, hread⟩ := hcoded p hp
        refine ⟨page, hpage, ?_⟩
        rw [pooledRead_disk (by rw [hpool]; exact hslot), hread]
    | some entry =>
        obtain ⟨i, buf⟩ := entry
        have hmem := h.mem_of_mapped (Option.ne_none_iff_exists'.mpr ⟨_, hslot⟩)
        obtain ⟨page, hpage, hread⟩ := h.pooled p hmem
        refine ⟨page, hpage, ?_⟩
        rw [← hread, pooledRead_slot hslot, pooledRead_slot (by rw [hpool]; exact hslot)]
  · rw [hpool]
    exact h.pinned.mono hsub
  · rw [hpool]
    exact h.poolSize_eq

omit [Bincode] in
/-- A page on disk that is not in the pool is what a fetch finds. -/
theorem pooledPage_of_unmapped {p : PageId} (h : slotOf db.cache.disk.pool p = none) :
    pooledPage db.cache.disk p = pageOf db.cache.disk.storage p := by
  rw [pooledPage, pageOf, pooledRead_disk h]

omit [Bincode] in
/-- A page in the pool is what a fetch finds, whatever is written. -/
theorem pooledPage_of_mapped {p : PageId} (hpool : db'.cache.disk.pool = db.cache.disk.pool)
    (h : slotOf db.cache.disk.pool p ≠ none) :
    pooledPage db'.cache.disk p = pooledPage db.cache.disk p := by
  obtain ⟨⟨i, buf⟩, hslot⟩ := Option.ne_none_iff_exists'.mp h
  rw [pooledPage, pooledPage, pooledRead_slot hslot, pooledRead_slot (by rw [hpool]; exact hslot)]

end Invariant

section Insert

variable [Bincode] {σ : Type} [StorageTrait σ] {P : Tuple → Prop} {relOid : Oid}
  {rel rel' : Relation} {tup : Tuple} {storage : σ} {q : PageId}

theorem holds_of_pageAt {page : HeapPage} (h : CodedAt P storage q)
    (hpage : PageAt storage q page) :
    ∃ page₀, Holds (Coded P) page₀ ∧ page = stored page₀ := by
  obtain ⟨page₀, hholds, hat⟩ := h.pageAt
  exact ⟨page₀, hholds, pageAt_unique hpage hat⟩

omit [Bincode] in
theorem openPage_mem {p : PageId} (h : rel.pages.getLast? = some p) :
    openPage rel = p ∧ p ∈ rel.pages ∧ openPages rel = rel.pages := by
  refine ⟨?_, List.mem_of_getLast? h, ?_⟩
  · rw [openPage, h, Option.getD_some]
  · rw [openPages, h]

omit [Bincode] in
theorem exists_last {p : PageId} (h : p ∈ rel.pages) : ∃ last, rel.pages.getLast? = some last := by
  cases hlast : rel.pages.getLast? with
  | none =>
      rw [List.getLast?_eq_none_iff.mp hlast] at h
      cases h
  | some last => exact ⟨last, rfl⟩

omit [Bincode] in
theorem openPages_of_mem {p : PageId} (h : p ∈ rel.pages) : openPages rel = rel.pages := by
  obtain ⟨last, hlast⟩ := exists_last h
  exact (openPage_mem hlast).2.2

omit [Bincode] in
theorem openStorage_of_mem {p : PageId} (h : p ∈ rel.pages) (storage : σ) :
    openStorage storage rel = storage := by
  obtain ⟨last, hlast⟩ := exists_last h
  simp only [openStorage, hlast]

omit [Bincode] in
theorem openPages_snoc (rel : Relation) : ∃ front, openPages rel = front ++ [openPage rel] := by
  cases hlast : rel.pages.getLast? with
  | none =>
      refine ⟨[], ?_⟩
      simp [openPages, openPage, hlast]
  | some p =>
      obtain ⟨hopen, _, hpages⟩ := openPage_mem hlast
      obtain ⟨front, hfront⟩ := List.getLast?_eq_some_iff.mp hlast
      exact ⟨front, by rw [hpages, hopen, hfront]⟩

omit [Bincode] in
theorem openPage_mem_openPages (rel : Relation) : openPage rel ∈ openPages rel := by
  obtain ⟨front, hfront⟩ := openPages_snoc rel
  rw [hfront]
  exact List.mem_append_right _ (List.mem_singleton_self _)

variable [LawfulStorage σ]

theorem codedAt_open (h : openPage rel ∈ rel.pages → CodedAt P storage (openPage rel)) :
    CodedAt P (openStorage storage rel) (openPage rel) := by
  cases hlast : rel.pages.getLast? with
  | none =>
      refine ⟨HeapPage.new, holds_new _, ?_⟩
      simp only [openStorage, openPage, hlast, Option.getD_none]
      exact LawfulStorage.read_write_self _ _ _
  | some p =>
      obtain ⟨hopen, hmem, _⟩ := openPage_mem hlast
      rw [hopen] at h ⊢
      simp only [openStorage, hlast]
      exact h hmem

theorem codedAt_openStorage (hq : q ∈ openPages rel)
    (h : q ∈ rel.pages → CodedAt P storage q) : CodedAt P (openStorage storage rel) q := by
  cases hlast : rel.pages.getLast? with
  | none =>
      simp only [openPages, hlast, List.mem_singleton] at hq
      have hopen : openPage rel = q := by simp only [openPage, hlast, Option.getD_none, hq]
      rw [← hopen] at h ⊢
      exact codedAt_open h
  | some p =>
      simp only [openPages, hlast] at hq
      simp only [openStorage, hlast]
      exact h hq

theorem codedAt_write_self {page : HeapPage} (hpage : Holds (Coded P) page) {data : Bytes}
    (hdata : page.serialize = some data) : CodedAt P (writePage storage q data).2 q := by
  rw [serialize_eq_image hpage.wellFormed] at hdata
  cases hdata
  exact ⟨page, hpage, LawfulStorage.read_write_self _ _ _⟩

theorem codedAt_write_of_ne {p : PageId} (h : CodedAt P storage q) (hne : q ≠ p) (data : Bytes) :
    CodedAt P (writePage storage p data).2 q := by
  obtain ⟨page, hpage, hread⟩ := h
  exact ⟨page, hpage, (LawfulStorage.read_write_of_ne _ _ _ _ hne).trans hread⟩

omit [Bincode] in
theorem nextPageId_val {p next : PageId} (h : nextPageId p = some next) : p.val < next.val := by
  unfold nextPageId checkedIncr at h
  split at h
  · cases h
  · rename_i hne
    cases h
    have hmax : p.val.toNat ≠ 2 ^ 32 - 1 := fun heq => hne (UInt32.toNat_inj.mp heq)
    have hlt := p.val.toNat_lt
    rw [UInt32.lt_iff_toNat_lt, UInt32.toNat_add]
    have hone : (1 : UInt32).toNat = 1 := rfl
    omega

omit [Bincode] [StorageTrait σ] [LawfulStorage σ] in
theorem openPages_increasing (h : rel.pages.Pairwise fun p q => p.val < q.val) :
    (openPages rel).Pairwise fun p q => p.val < q.val := by
  unfold openPages
  split
  · exact List.pairwise_singleton _ _
  · exact h

omit [Bincode] [StorageTrait σ] [LawfulStorage σ] in
theorem openPages_le (h : rel.pages.Pairwise fun p q => p.val < q.val) (hq : q ∈ openPages rel) :
    q = openPage rel ∨ q.val < (openPage rel).val := by
  cases hlast : rel.pages.getLast? with
  | none =>
      simp only [openPages, hlast, List.mem_singleton] at hq
      simp only [openPage, hlast, Option.getD_none]
      exact Or.inl hq
  | some p =>
      obtain ⟨hopen, _, hpages⟩ := openPage_mem hlast
      rw [hpages] at hq
      rw [hopen]
      obtain ⟨front, hfront⟩ := List.getLast?_eq_some_iff.mp hlast
      rw [hfront] at h hq
      rcases List.mem_append.mp hq with hq | hq
      · exact Or.inr ((List.pairwise_append.mp h).2.2 q hq p List.mem_cons_self)
      · exact Or.inl (List.mem_singleton.mp hq)

omit [Bincode] [StorageTrait σ] [LawfulStorage σ] in
theorem ne_nextPageId (hincreasing : rel.pages.Pairwise fun p q => p.val < q.val)
    {q next : PageId} (hq : q ∈ openPages rel) (hnext : nextPageId (openPage rel) = some next) :
    q ≠ next := by
  rintro rfl
  have hlt := nextPageId_val hnext
  rcases openPages_le hincreasing hq with heq | hbelow
  · rw [← heq] at hlt
    exact UInt32.lt_irrefl _ hlt
  · exact UInt32.lt_irrefl _ (UInt32.lt_trans hbelow hlt)

variable [LawfulBincode]

/-- How an insert, failed or not, leaves the relation: its pages hold encodings,
the page inserts go to gained nothing or the tuple, and a page may have been
added for the tuple. -/
theorem inserted_codedAt {cache cache' : SharedBufferCache σ}
    (h : Inserted cache relOid tup cache') (hrel : cache.rels.lookup relOid = some rel)
    (hrel' : cache'.rels.lookup relOid = some rel') (hP : P tup) (hq : q ∈ rel'.pages)
    (hcoded : q ∈ rel.pages → CodedAt P cache.disk.storage q)
    (hopen : openPage rel ∈ rel.pages → CodedAt P cache.disk.storage (openPage rel)) :
    CodedAt P cache'.disk.storage q := by
  cases h with
  | unchanged =>
      rw [hrel] at hrel'
      cases hrel'
      exact hcoded hq
  | opened hrel₁ =>
      have hsame : cache.rels.lookup relOid = some rel' := hrel'
      rw [hrel] at hrel₁ hsame
      cases hrel₁
      cases hsame
      exact codedAt_openStorage (openPages_of_mem hq ▸ hq) hcoded
  | added hrel₁ hpage hencoded hadd hdata =>
      rw [hrel] at hrel₁
      cases hrel₁
      simp only [AList.lookup_insert] at hrel'
      cases hrel'
      obtain ⟨page₀, hholds, rfl⟩ := holds_of_pageAt (codedAt_open hopen) hpage
      by_cases hqo : q = openPage rel
      · subst hqo
        exact codedAt_write_self (holds_addTuple (holds_stored hholds)
          (serializeTuple_ne_nil hencoded) ⟨tup, hencoded, hP⟩ hadd) hdata
      · exact codedAt_write_of_ne (codedAt_openStorage hq hcoded) hqo _
  | @extended rel₁ _ _ next _ _ _ _ hrel₁ hpage hencoded hadd hnext hnew hdata' hdata =>
      rw [hrel] at hrel₁
      cases hrel₁
      simp only [AList.lookup_insert] at hrel'
      cases hrel'
      obtain ⟨page₀, hholds, rfl⟩ := holds_of_pageAt (codedAt_open hopen) hpage
      by_cases hqo : q = openPage rel
      · subst hqo
        exact codedAt_write_self (holds_stored hholds) hdata
      · apply codedAt_write_of_ne _ hqo
        by_cases hqn : q = next
        · subst hqn
          exact codedAt_write_self (holds_addTuple (holds_new _)
            (serializeTuple_ne_nil hencoded) ⟨tup, hencoded, hP⟩ hnew) hdata'
        · apply codedAt_write_of_ne _ hqn
          rcases List.mem_append.mp hq with hq | hq
          · exact codedAt_openStorage hq hcoded
          · exact absurd (List.mem_singleton.mp hq) hqn

variable {db db' : Database σ}

omit [Bincode] [StorageTrait σ] [LawfulStorage σ] [LawfulBincode] in
theorem prefix_openPages (rel : Relation) : rel.pages <+: openPages rel := by
  cases hlast : rel.pages.getLast? with
  | none =>
      rw [List.getLast?_eq_none_iff.mp hlast]
      exact List.nil_prefix
  | some p => rw [(openPage_mem hlast).2.2]

omit [LawfulStorage σ] [LawfulBincode] in
/-- An insert leaves the pool alone and keeps the relation's pages, in order. -/
theorem inserted_grows (hincreasing : rel.pages.Pairwise fun p q => p.val < q.val)
    {cache cache' : SharedBufferCache σ} (h : Inserted cache relOid tup cache')
    (hrel : cache.rels.lookup relOid = some rel) :
    cache'.disk.pool = cache.disk.pool ∧
      ∃ rel', cache'.rels.lookup relOid = some rel' ∧ rel'.tupleDesc = rel.tupleDesc ∧
        rel.pages <+: rel'.pages ∧ rel'.pages.Pairwise fun p q => p.val < q.val := by
  cases h with
  | unchanged => exact ⟨rfl, rel, hrel, rfl, List.prefix_rfl, hincreasing⟩
  | opened _ => exact ⟨rfl, rel, hrel, rfl, List.prefix_rfl, hincreasing⟩
  | added hrel₁ _ _ _ _ =>
      rw [hrel] at hrel₁
      cases hrel₁
      exact ⟨rfl, _, AList.lookup_insert _, rfl, prefix_openPages rel,
        openPages_increasing hincreasing⟩
  | extended hrel₁ _ _ _ hnext _ _ _ =>
      rw [hrel] at hrel₁
      cases hrel₁
      refine ⟨rfl, _, AList.lookup_insert _, rfl,
        (prefix_openPages rel).trans (List.prefix_append _ _), ?_⟩
      refine List.pairwise_append.mpr ⟨openPages_increasing hincreasing,
        List.pairwise_singleton _ _, ?_⟩
      intro q hq next hmem
      rw [List.mem_singleton] at hmem
      have hlt := nextPageId_val hnext
      rw [hmem]
      rcases openPages_le hincreasing hq with rfl | hbelow
      · exact hlt
      · exact UInt32.lt_trans hbelow hlt

theorem Sane.inserted (h : Sane P relOid rel db) (hP : P tup)
    (hins : Inserted db.cache relOid tup db'.cache) :
    ∃ rel', Sane P relOid rel' db' ∧ rel'.tupleDesc = rel.tupleDesc ∧
      rel.pages <+: rel'.pages := by
  obtain ⟨hpool, rel', hrel', hdesc, hprefix, hincreasing⟩ :=
    inserted_grows h.increasing hins h.registered
  refine ⟨rel', h.rewrite hpool hrel' hincreasing (fun p hp => hprefix.subset hp) ?_, hdesc,
    hprefix⟩
  intro q hq
  exact inserted_codedAt hins h.registered hrel' hP hq (h.coded q) (h.coded _)

omit [LawfulBincode] in
/-- A page keeps its tuples unless it is the page inserts go to and has room. -/
theorem inserted_tuples (h : Sane P relOid rel db) {values : List Bytes}
    (hins : Inserted db.cache relOid (newTuple values db.wal.currentXid) db'.cache)
    (hq : q ∈ rel.pages) (hfull : q = openPage rel → PageFull db rel values) :
    (pageOf db'.cache.disk.storage q).map HeapPage.tuples =
      (pageOf db.cache.disk.storage q).map HeapPage.tuples := by
  have hopened := openStorage_of_mem hq db.cache.disk.storage
  generalize hcache : db'.cache = cache' at hins ⊢
  cases hins with
  | unchanged => rfl
  | opened hrel₁ =>
      rw [h.registered] at hrel₁
      cases hrel₁
      simp only [withStorage, hopened]
  | @added rel₁ page page' encoded data slot hrel₁ hpage hencoded hadd hdata =>
      rw [h.registered] at hrel₁
      cases hrel₁
      have hne : q ≠ openPage rel := by
        intro heq
        exact not_pageFull hpage hencoded hadd (hfull heq)
      simp only [withStorage, hopened, pageOf, LawfulStorage.read_write_of_ne _ _ _ _ hne]
  | @extended rel₁ page page' next encoded data data' slot hrel₁ hpage hencoded hadd hnext hnew
      hdata' hdata =>
      rw [h.registered] at hrel₁
      cases hrel₁
      have hnext' : q ≠ next := ne_nextPageId h.increasing (openPages_of_mem hq ▸ hq) hnext
      by_cases hqo : q = openPage rel
      · -- the full page is written back as it was read
        rw [hopened] at hpage
        rw [← hqo] at hpage
        obtain ⟨page₀, hholds, rfl⟩ := holds_of_pageAt (h.coded q hq) hpage
        rw [serialize_eq_image (wellFormed_stored hholds.wellFormed)] at hdata
        cases hdata
        have hafter : pageOf (writePage (writePage (openStorage db.cache.disk.storage rel) next
            data').2 (openPage rel) (image (stored page₀))).2 q =
              some (stored (stored page₀)) := by
          rw [pageOf_eq_some, hqo]
          exact (held_write _ _ (wellFormed_stored hholds.wellFormed)).pageAt
        rw [pageOf_eq_some.mpr hpage]
        simp only [withStorage, hafter, Option.map_some, stored_stored_tuples]
      · simp only [withStorage, hopened, pageOf, LawfulStorage.read_write_of_ne _ _ _ _ hqo,
          LawfulStorage.read_write_of_ne _ _ _ _ hnext']

end Insert

section Steps

variable [Bincode] {σ : Type} [StorageTrait σ] {P : Tuple → Prop} {relOid : Oid}
  {rel : Relation} {db db' : Database σ}

/-- A scan through the pool panics on a full counter or returns the rows of what
fetches find, and changes nothing that later fetches find. -/
theorem heapScan_sane (h : Sane P relOid rel db) (hsize : rel.pages.length ≤ 1024)
    (snapshot : Option Snapshot) :
    (heapScanWithOptionalSnapshot relOid snapshot db = .panic ∧
        ∃ p ∈ rel.pages, Saturated db.cache.disk.pool p) ∨
      ∃ disk, heapScanWithOptionalSnapshot relOid snapshot db =
          .ok (scanRows (pooledPage db.cache.disk) rel.tupleDesc (snapshot.getD maxSnapshot)
            rel.pages) { db with cache := { db.cache with disk := disk } } ∧
        Loaded db.cache.disk disk ∧ (∀ p ∈ rel.pages, slotOf disk.pool p ≠ none) ∧
        (∀ p ∈ rel.pages, slotOf db.cache.disk.pool p = none → ¬Saturated disk.pool p) ∧
        Sane P relOid rel { db with cache := { db.cache with disk := disk } } := by
  have hget : onCache (getRelationState relOid) db = .ok rel db :=
    getRelationState_eq_ok.mpr ⟨h.registered, rfl⟩
  have hread : ∀ p ∈ rel.pages, ∃ data, pooledRead db.cache.disk p = .ok data := by
    intro p hp
    obtain ⟨page, _, hread⟩ := h.pooled p hp
    exact ⟨_, hread⟩
  rcases fetchPagesBatch_pinned h.pinned (by rw [h.poolSize_eq]; exact hsize) h.nodup hread with
    ⟨hpanic, hsat⟩ | ⟨result, disk, hfetch, hloaded, hpinned, hmapped, hunsat, hall⟩
  · refine Or.inl ⟨?_, hsat⟩
    rw [heapScanWithOptionalSnapshot, bind_ok hget]
    apply bind_panic
    simp [onCache, onDisk, within, hpanic]
  · refine Or.inr ⟨disk, ?_, hloaded, hmapped, hunsat, h.registered, h.increasing, ?_, ?_,
      hpinned, ?_⟩
    · have hbatch : onCache (onDisk (fetchPagesBatch rel.pages)) db =
          .ok result { db with cache := { db.cache with disk := disk } } :=
        within_ok (within_ok hfetch)
      rw [heapScanWithOptionalSnapshot, bind_ok hget, bind_ok hbatch]
      apply scanFetched_rows
      rw [List.forall₂_iff_zip]
      refine ⟨hall.length_eq, ?_⟩
      intro p entry hmem
      obtain ⟨hfst, hdata⟩ := (List.forall₂_iff_zip.mp hall).2 hmem
      obtain ⟨page, hpage, hread, hpooled⟩ :=
        pooledPage_of_pooledAt (h.pooled p (List.of_mem_zip hmem).1)
      have hentry : entry.2 = image page := Except.ok.inj (hdata.symm.trans hread)
      refine ⟨hfst, stored page, ?_, hpooled⟩
      rw [hentry]
      exact deserialize_image hpage.wellFormed
    · intro p hp
      simp only [hloaded.storage_eq]
      exact h.coded p hp
    · intro p hp
      obtain ⟨page, hpage, hread⟩ := h.pooled p hp
      exact ⟨page, hpage, (hloaded.pooledRead_eq p).trans hread⟩
    · exact hloaded.poolSize_eq.trans h.poolSize_eq

theorem slowScan_sane (h : Sane P relOid rel db) :
    slowScan relOid none db =
      .ok (scanRows (pageOf db.cache.disk.storage) rel.tupleDesc maxSnapshot rel.pages) db := by
  have hget : onCache (getRelationState relOid) db = .ok rel db :=
    getRelationState_eq_ok.mpr ⟨h.registered, rfl⟩
  rw [slowScan, bind_ok hget]
  apply scanPages_rows
  intro p hp
  obtain ⟨page, _, hat⟩ := (h.coded p hp).pageAt
  exact ⟨stored page, hat⟩

theorem Sane.rewrites {touched : PageId → Prop} (h : Sane P relOid rel db)
    (hR : Rewrites P touched db db') : Sane P relOid rel db' :=
  h.rewrite hR.pool_eq (by rw [hR.rels_eq]; exact h.registered) h.increasing (fun _ hp => hp)
    fun p hp => hR.coded p (h.coded p hp)

theorem Sane.vacuumed (h : Sane P relOid rel db) (hV : Vacuumed P db db') :
    Sane P relOid rel db' := by
  refine ⟨by rw [hV.rels_eq]; exact h.registered, h.increasing,
    fun p hp => hV.coded p (h.coded p hp), ?_, hV.pinned _ h.pinned,
    hV.poolSize_eq.trans h.poolSize_eq⟩
  intro p hp
  rcases hV.fresh p with hnone | ⟨hslot, hread⟩
  · obtain ⟨page, hpage, hread⟩ := hV.coded p (h.coded p hp)
    exact ⟨page, hpage, (pooledRead_disk hnone).trans hread⟩
  · obtain ⟨page, hpage, hpooled⟩ := h.pooled p hp
    refine ⟨page, hpage, ?_⟩
    rw [← hpooled, pooledRead, pooledRead, hslot, hread]

variable [LawfulStorage σ] [LawfulBincode]

theorem tupleDelete_rewrites {W : UInt64 → Prop} {filter : Option Filter}
    (h : Sane P relOid rel db)
    (hstamps : ∀ j < tupleCount db.cache.disk.storage
      (fun page => (matchingTuples page rel.tupleDesc filter).length) rel.pages,
      Expires P (db.wal.currentXid + UInt64.ofNat j) ∧ W (db.wal.currentXid + UInt64.ofNat j))
    (hstate : (tupleDelete relOid filter db).state? = some db') :
    Rewrites P (DeletesOn db.cache.disk.storage rel.tupleDesc filter) db db' ∧
      Restamps W db db' := by
  have hget : onCache (getRelationState relOid) db = .ok rel db :=
    getRelationState_eq_ok.mpr ⟨h.registered, rfl⟩
  exact (ensures_ok_bind hget (deletePages_ensures relOid rel.tupleDesc filter h.nodup h.coded
    hstamps)).state hstate

theorem tupleUpdate_rewrites {columnIdx : Nat} {newValue : Bytes} {filter : Option Filter}
    (h : Sane P relOid rel db)
    (hstamps : ∀ j < tupleCount db.cache.disk.storage
      (fun page => (tuplesToUpdate page rel.tupleDesc columnIdx newValue filter).length) rel.pages,
      Stamps P (db.wal.currentXid + UInt64.ofNat j))
    (hstate : (tupleUpdate relOid columnIdx newValue filter db).state? = some db') :
    Rewrites P (UpdatesOn db.cache.disk.storage rel.tupleDesc columnIdx newValue filter) db
      db' := by
  have hget : onCache (getRelationState relOid) db = .ok rel db :=
    getRelationState_eq_ok.mpr ⟨h.registered, rfl⟩
  exact (ensures_ok_bind hget (updatePages_ensures relOid rel.tupleDesc columnIdx newValue filter
    h.nodup h.coded hstamps)).state hstate

omit [LawfulBincode] in
theorem vacuumRelation_vacuumed {oldestXmin : UInt32} (h : Sane P relOid rel db)
    (hstate : (vacuumRelation relOid oldestXmin db).state? = some db') : Vacuumed P db db' := by
  have hget : onCache (getRelationState relOid) db = .ok rel db :=
    getRelationState_eq_ok.mpr ⟨h.registered, rfl⟩
  exact (ensures_ok_bind hget (vacuumPages_ensures oldestXmin (vacuumed_refl P db) h.pinned
    h.coded)).state hstate

end Steps

end PostgressRs.Executor.HeapInvariant
