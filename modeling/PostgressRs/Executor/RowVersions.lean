import PostgressRs.Executor.HeapInvariant

/-!
Which row versions a snapshot shows, and which of them a statement keeps where a
fetch finds them.
-/

namespace PostgressRs.Executor.RowVersions

open PostgressRs.BufferCache.PagePool
open PostgressRs.BufferCache.PinnedPool
open PostgressRs.BufferCache.SharedCache
open PostgressRs.Executor.HeapAccess
open PostgressRs.Executor.HeapContents
open PostgressRs.Executor.HeapInvariant
open PostgressRs.Executor.HeapSteps
open PostgressRs.Lib.ByteBuffer
open PostgressRs.Lib.Procedure
open PostgressRs.Storage.PageContents
open PostgressRs.Storage.PageRoundTrip
open PostgressRs.Storage.PageStore
open PostgressRs.Storage.SlottedPage
open PostgressRs.Txn.TransactionTable
open PostgressRs.Types
open PostgressRs.Wal.LogRecord
open PostgressRs.Wal.WriteAheadLog

section Visibility

/-- The snapshot takes what `xid` did as done: only the low 32 bits of the stamp
are looked at. -/
def Covers (snapshot : Snapshot) (xid : UInt64) : Prop :=
  xid ≠ 0 ∧ ⟨xid.toUInt32⟩ ∉ snapshot.activeXids ∧ xid.toUInt32 < snapshot.xid.val

theorem isVisible_iff (tup : Tuple) (snapshot : Snapshot) :
    isVisible tup snapshot = true ↔ Covers snapshot tup.xmin ∧ ¬Covers snapshot tup.xmax := by
  unfold isVisible Covers
  by_cases hmin : tup.xmin = 0
  · simp [hmin]
  · by_cases hmax : tup.xmax = 0
    · simp [hmin, hmax]
    · simp only [hmin, hmax, if_false, ne_eq, not_false_eq_true, true_and, not_and]
      by_cases hcovered : ⟨tup.xmin.toUInt32⟩ ∉ snapshot.activeXids ∧
          tup.xmin.toUInt32 < snapshot.xid.val
      · simp [hcovered, or_iff_not_imp_left]
      · simp [hcovered]

/-- The other visibility function takes a deleted version as visible. -/
theorem snapshot_isVisible_iff (snapshot : Snapshot) {xmin : UInt64} (hxmin : xmin ≠ 0)
    (xmax : UInt64) :
    snapshot.isVisible ⟨xmin.toUInt32⟩ (if xmax = 0 then none else some ⟨xmax.toUInt32⟩) = true ↔
      Covers snapshot xmin ∧ (xmax = 0 ∨ Covers snapshot xmax) := by
  unfold Snapshot.isVisible Covers
  by_cases hle : snapshot.xid.val ≤ xmin.toUInt32
  · simp [hle]
  · by_cases hactive : (⟨xmin.toUInt32⟩ : TransactionId) ∈ snapshot.activeXids
    · simp [hle, hactive]
    · have hlt : xmin.toUInt32 < snapshot.xid.val := UInt32.not_le.mp hle
      by_cases hmax : xmax = 0
      · simp [hle, hactive, hlt, hmax, hxmin]
      · simp [hle, hactive, hlt, hmax, hxmin, and_comm]

/-- The two visibility functions agree exactly on versions that were not deleted
and on versions whose creator the snapshot does not cover. -/
theorem visibility_agrees_iff (tup : Tuple) (snapshot : Snapshot) (hxmin : tup.xmin ≠ 0) :
    isVisible tup snapshot =
        snapshot.isVisible ⟨tup.xmin.toUInt32⟩
          (if tup.xmax = 0 then none else some ⟨tup.xmax.toUInt32⟩) ↔
      tup.xmax = 0 ∨ ⟨tup.xmin.toUInt32⟩ ∈ snapshot.activeXids ∨
        snapshot.xid.val ≤ tup.xmin.toUInt32 := by
  rw [Bool.eq_iff_iff, isVisible_iff, snapshot_isVisible_iff snapshot hxmin]
  have hnever : ¬Covers snapshot 0 := fun hcovers => hcovers.1 rfl
  have hcreator : Covers snapshot tup.xmin ↔
      ¬(⟨tup.xmin.toUInt32⟩ ∈ snapshot.activeXids ∨ snapshot.xid.val ≤ tup.xmin.toUInt32) := by
    unfold Covers
    rw [not_or, UInt32.not_le]
    exact and_iff_right hxmin
  rw [hcreator]
  by_cases hmax : tup.xmax = 0
  · simp [hmax, hnever]
  · simp only [hmax, false_or]
    tauto

theorem visibility_agrees_iff_live :
    isVisible { slots := [], data := [], xmin := 5, xmax := 0, cmin := 0, cmax := 0, xvac := 0 }
        ⟨⟨10⟩, [⟨8⟩]⟩ =
      (⟨⟨10⟩, [⟨8⟩]⟩ : Snapshot).isVisible ⟨5⟩ none :=
  (visibility_agrees_iff ⟨[], [], 5, 0, 0, 0, 0⟩ ⟨⟨10⟩, [⟨8⟩]⟩ (by decide)).mpr (Or.inl rfl)

/-- A version that transaction 7 deleted. -/
theorem visibility_differs_deleted :
    isVisible { slots := [], data := [], xmin := 5, xmax := 7, cmin := 0, cmax := 0, xvac := 0 }
        ⟨⟨10⟩, []⟩ = false ∧
      (⟨⟨10⟩, []⟩ : Snapshot).isVisible ⟨5⟩ (some ⟨7⟩) = true := by
  decide

end Visibility

section Rows

variable [Bincode]

/-- The row of the version in a slot. -/
def rowOf (desc : TupleDesc) (p : PageId) (slot : Nat) (tup : Tuple) : Row :=
  (⟨p, UInt16.ofNat slot⟩, decodeTupleValues tup desc)

theorem mem_pageRows {p : PageId} {tuples : List Bytes} {desc : TupleDesc} {snapshot : Snapshot}
    {row : Row} :
    row ∈ pageRows p tuples desc snapshot none ↔
      ∃ (slot : Nat) (bytes : Bytes) (tup : Tuple), tuples[slot]? = some bytes ∧
        deserializeTuple bytes = .ok tup ∧ isVisible tup snapshot = true ∧
        row = rowOf desc p slot tup := by
  unfold pageRows
  rw [List.mem_filterMap]
  constructor
  · rintro ⟨⟨bytes, slot⟩, hmem, hrow⟩
    have hbytes : tuples[slot]? = some bytes := List.mem_zipIdx_iff_getElem?.mp hmem
    unfold slotRow at hrow
    cases hdecoded : deserializeTuple bytes with
    | error e => simp [hdecoded] at hrow
    | ok tup =>
        by_cases hvisible : isVisible tup snapshot = true
        · simp only [hdecoded, hvisible, scanFilter, if_true, Option.some.injEq] at hrow
          exact ⟨slot, bytes, tup, hbytes, hdecoded, hvisible, hrow.symm⟩
        · simp [hdecoded, hvisible] at hrow
  · rintro ⟨slot, bytes, tup, hbytes, hdecoded, hvisible, rfl⟩
    refine ⟨(bytes, slot), List.mem_zipIdx_iff_getElem?.mpr hbytes, ?_⟩
    simp [slotRow, hdecoded, hvisible, scanFilter, rowOf]

variable {σ : Type} [StorageTrait σ] {P : Tuple → Prop} {relOid : Oid} {rel : Relation}
  {db : Database σ}

theorem scanRow_of_slotIn {snapshot : Snapshot} {p : PageId} {slot : Nat} {tup : Tuple}
    [LawfulBincode] (hp : p ∈ rel.pages) (hslot : SlotIn (pooledRead db.cache.disk p) slot tup)
    (hvisible : isVisible tup snapshot = true) :
    rowOf rel.tupleDesc p slot tup ∈
      scanRows (pooledPage db.cache.disk) rel.tupleDesc snapshot rel.pages := by
  obtain ⟨page, hpage, hread, _, bytes, _, _, hbytes, hcode⟩ := hslot
  refine List.mem_flatMap.mpr ⟨p, hp, ?_⟩
  rw [pooledPage, hread]
  simp only [decoded, deserialize_image hpage]
  exact mem_pageRows.mpr
    ⟨slot, bytes, tup, hbytes, LawfulBincode.deserialize_serialize hcode, hvisible, rfl⟩

/-- Every row of a scan is the row of a visible version in some slot. -/
theorem slotIn_of_scanRow [LawfulBincode] (h : Sane P relOid rel db) {snapshot : Snapshot}
    {row : Row}
    (hrow : row ∈ scanRows (pooledPage db.cache.disk) rel.tupleDesc snapshot rel.pages) :
    ∃ p slot tup, p ∈ rel.pages ∧ SlotIn (pooledRead db.cache.disk p) slot tup ∧ P tup ∧
      isVisible tup snapshot = true ∧ row = rowOf rel.tupleDesc p slot tup := by
  obtain ⟨p, hp, hrow⟩ := List.mem_flatMap.mp hrow
  obtain ⟨page, hpage, hread, hpooled⟩ := pooledPage_of_pooledAt (h.pooled p hp)
  rw [hpooled] at hrow
  obtain ⟨slot, bytes, tup, hbytes, hdecoded, hvisible, rfl⟩ := mem_pageRows.mp hrow
  obtain ⟨hslot, hP⟩ := slotHolds_of_decoded hpage hbytes hdecoded
  exact ⟨p, slot, tup, hp, ⟨page, hpage.wellFormed, hread, hslot⟩, hP, hvisible, rfl⟩

end Rows

section Kept

variable [Bincode] {σ : Type} [StorageTrait σ]

/-- Versions stay in their slots, at most with a deleter the snapshot does not
cover. -/
def VersionsKept (snapshot : Snapshot) (pages : List PageId) (db db' : Database σ) : Prop :=
  ∀ p ∈ pages, ∀ slot tup, SlotIn (pooledRead db.cache.disk p) slot tup →
    ∃ x, (x = tup.xmax ∨ ¬Covers snapshot x) ∧
      SlotIn (pooledRead db'.cache.disk p) slot { tup with xmax := x }

variable {snapshot : Snapshot} {relOid : Oid} {rel rel' : Relation} {db db' : Database σ}

/-- What the snapshot shows before, it shows after. -/
theorem VersionsKept.scanRows_subset [LawfulBincode] {P : Tuple → Prop}
    (hkept : VersionsKept snapshot rel.pages db db') (h : Sane P relOid rel db)
    (hdesc : rel'.tupleDesc = rel.tupleDesc) (hpages : rel.pages ⊆ rel'.pages) :
    scanRows (pooledPage db.cache.disk) rel.tupleDesc snapshot rel.pages ⊆
      scanRows (pooledPage db'.cache.disk) rel'.tupleDesc snapshot rel'.pages := by
  intro row hrow
  obtain ⟨p, slot, tup, hp, hslot, _, hvisible, rfl⟩ := slotIn_of_scanRow h hrow
  obtain ⟨x, hx, hslot'⟩ := hkept p hp slot tup hslot
  obtain ⟨hmin, hmax⟩ := (isVisible_iff tup snapshot).mp hvisible
  have hvisible' : isVisible { tup with xmax := x } snapshot = true := by
    refine (isVisible_iff _ _).mpr ⟨hmin, ?_⟩
    rcases hx with rfl | hx
    · exact hmax
    · exact hx
  have hsame : rowOf rel.tupleDesc p slot tup =
      rowOf rel'.tupleDesc p slot { tup with xmax := x } := by
    rw [hdesc]
    rfl
  rw [hsame]
  exact scanRow_of_slotIn (hpages hp) hslot' hvisible'

omit [Bincode] in
theorem pooledRead_of_mapped {p : PageId} (hpool : db'.cache.disk.pool = db.cache.disk.pool)
    (h : slotOf db.cache.disk.pool p ≠ none) :
    pooledRead db'.cache.disk p = pooledRead db.cache.disk p := by
  obtain ⟨⟨i, buf⟩, hslot⟩ := Option.ne_none_iff_exists'.mp h
  rw [pooledRead_slot hslot, pooledRead_slot (by rw [hpool]; exact hslot)]

omit [Bincode] in
theorem pooledRead_of_unmapped {p : PageId} (hpool : db'.cache.disk.pool = db.cache.disk.pool)
    (h : slotOf db.cache.disk.pool p = none) :
    pooledRead db.cache.disk p = readPage db.cache.disk.storage p ∧
      pooledRead db'.cache.disk p = readPage db'.cache.disk.storage p :=
  ⟨pooledRead_disk h, pooledRead_disk (by rw [hpool]; exact h)⟩

/-- A write that leaves the pool alone keeps what it keeps on disk of the pages
that are not in the pool. -/
theorem versionsKept_of_disk {pages : List PageId}
    (hpool : db'.cache.disk.pool = db.cache.disk.pool)
    (hdisk : ∀ p ∈ pages, slotOf db.cache.disk.pool p = none → ∀ slot tup,
      SlotIn (readPage db.cache.disk.storage p) slot tup →
        ∃ x, (x = tup.xmax ∨ ¬Covers snapshot x) ∧
          SlotIn (readPage db'.cache.disk.storage p) slot { tup with xmax := x }) :
    VersionsKept snapshot pages db db' := by
  intro p hp slot tup hslot
  by_cases hmapped : slotOf db.cache.disk.pool p = none
  · obtain ⟨hbefore, hafter⟩ := pooledRead_of_unmapped hpool hmapped
    rw [hbefore] at hslot
    rw [hafter]
    exact hdisk p hp hmapped slot tup hslot
  · refine ⟨tup.xmax, Or.inl rfl, ?_⟩
    rw [pooledRead_of_mapped hpool hmapped]
    exact hslot

theorem versionsKept_of_pooledRead {pages : List PageId}
    (h : ∀ p ∈ pages, pooledRead db'.cache.disk p = pooledRead db.cache.disk p) :
    VersionsKept snapshot pages db db' := by
  intro p hp slot tup hslot
  refine ⟨tup.xmax, Or.inl rfl, ?_⟩
  rw [h p hp]
  exact hslot

theorem versionsKept_of_cache {pages : List PageId} {db₁ db₂ : Database σ}
    (h : VersionsKept snapshot pages db₁ db₂) (hbefore : db₁.cache = db.cache)
    (hafter : db'.cache = db₂.cache) : VersionsKept snapshot pages db db' := by
  unfold VersionsKept at h ⊢
  rw [hafter, ← hbefore]
  exact h

theorem versionsKept_trans {pages pages' : List PageId} {db₁ : Database σ}
    (h : VersionsKept snapshot pages db db₁) (hsub : pages ⊆ pages')
    (h' : VersionsKept snapshot pages' db₁ db') : VersionsKept snapshot pages db db' := by
  intro p hp slot tup hslot
  obtain ⟨x, hx, hslot'⟩ := h p hp slot tup hslot
  obtain ⟨x', hx', hslot''⟩ := h' p (hsub hp) slot _ hslot'
  refine ⟨x', ?_, hslot''⟩
  rcases hx' with rfl | hx'
  · exact hx
  · exact Or.inr hx'

end Kept

section Insert

variable [Bincode] {σ : Type} [StorageTrait σ] {relOid : Oid} {rel rel' : Relation}
  {db db' : Database σ} {tup : Tuple}

theorem slotHolds_of_pageAt {storage : σ} {q : PageId} {page : HeapPage} {slot : Nat}
    (hpage : PageAt storage q page) (hslot : SlotIn (readPage storage q) slot tup) :
    WellFormed page ∧ SlotHolds page slot tup := by
  obtain ⟨page₀, hpage₀, hread, hholds⟩ := hslot
  obtain rfl : page = stored page₀ :=
    pageAt_unique hpage ⟨image page₀, hread, deserialize_image hpage₀⟩
  exact ⟨wellFormed_stored hpage₀, hholds⟩

/-- The slot that `add_tuple` returns holds the tuple. -/
theorem slotHolds_added {page page' : HeapPage} {encoded : Bytes} {slot : UInt16}
    (hpage : WellFormed page) (hencoded : serializeTuple tup = .ok encoded)
    (h : page.addTuple encoded = some (page', some slot)) : SlotHolds page' slot.toNat tup := by
  have hsize := linePointers_lt hpage
  obtain ⟨-, ⟨-, hnone, -⟩ | ⟨i, hfind, hslot, -, rfl⟩ | ⟨-, hslot, -, rfl⟩⟩ := addTuple_cases h
  · cases hnone
  · cases hslot
    obtain ⟨hi, -⟩ := List.findIdx?_eq_some_iff_getElem.mp hfind
    have hval : (UInt16.ofNat i).toNat = i := by
      rw [UInt16.toNat_ofNat']
      exact Nat.mod_eq_of_lt (by omega)
    have hi' : i < page.tuples.length := by rw [hpage.length_eq]; exact hi
    rw [hval]
    exact ⟨_, encoded, List.getElem?_set_self hi, rfl, List.getElem?_set_self hi', hencoded⟩
  · cases hslot
    have hval : (UInt16.ofNat page.linePointers.length).toNat = page.linePointers.length := by
      rw [UInt16.toNat_ofNat']
      exact Nat.mod_eq_of_lt (by omega)
    rw [hval]
    refine ⟨_, encoded, List.getElem?_concat_length, rfl, ?_, hencoded⟩
    rw [← hpage.length_eq]
    exact List.getElem?_concat_length

variable [LawfulStorage σ]

theorem slotIn_write {storage : σ} {q : PageId} {page : HeapPage} {data : Bytes} {slot : Nat}
    (hpage : WellFormed page) (hdata : page.serialize = some data)
    (hslot : SlotHolds page slot tup) :
    SlotIn (readPage (writePage storage q data).2 q) slot tup := by
  rw [serialize_eq_image hpage] at hdata
  cases hdata
  exact ⟨page, hpage, LawfulStorage.read_write_self _ _ _, slotHolds_stored hpage hslot⟩

theorem slotIn_write_of_ne {storage : σ} {p q : PageId} {slot : Nat} (hne : q ≠ p)
    (data : Bytes) (hslot : SlotIn (readPage storage q) slot tup) :
    SlotIn (readPage (writePage storage p data).2 q) slot tup := by
  rw [LawfulStorage.read_write_of_ne _ _ _ _ hne]
  exact hslot

variable [LawfulBincode]

/-- An insert keeps every tuple of the relation's pages in its slot. -/
theorem inserted_slotIn (hincreasing : rel.pages.Pairwise fun p q => p.val < q.val)
    (hrel : db.cache.rels.lookup relOid = some rel) {q : PageId} (hq : q ∈ rel.pages)
    {cache' : SharedBufferCache σ} (hins : Inserted db.cache relOid tup cache') {slot : Nat}
    {old : Tuple} (hslot : SlotIn (readPage db.cache.disk.storage q) slot old) :
    SlotIn (readPage cache'.disk.storage q) slot old := by
  have hopened := openStorage_of_mem hq db.cache.disk.storage
  cases hins with
  | unchanged => exact hslot
  | opened hrel₁ =>
      rw [hrel] at hrel₁
      cases hrel₁
      simp only [withStorage, hopened]
      exact hslot
  | added hrel₁ hpage hencoded hadd hdata =>
      rw [hrel] at hrel₁
      cases hrel₁
      simp only [withStorage, hopened] at hpage ⊢
      by_cases hqo : q = openPage rel
      · rw [hqo] at hslot ⊢
        obtain ⟨hwf, hold⟩ := slotHolds_of_pageAt hpage hslot
        exact slotIn_write (wellFormed_addTuple hwf (serializeTuple_ne_nil hencoded) hadd) hdata
          (slotHolds_addTuple hwf hold hadd)
      · exact slotIn_write_of_ne hqo _ hslot
  | extended hrel₁ hpage hencoded hadd hnext hnew hdata' hdata =>
      rw [hrel] at hrel₁
      cases hrel₁
      simp only [withStorage, hopened] at hpage ⊢
      by_cases hqo : q = openPage rel
      · rw [hqo] at hslot ⊢
        obtain ⟨hwf, hold⟩ := slotHolds_of_pageAt hpage hslot
        exact slotIn_write hwf hdata hold
      · have hne := ne_nextPageId hincreasing (openPages_of_mem hq ▸ hq) hnext
        exact slotIn_write_of_ne hqo _ (slotIn_write_of_ne hne _ hslot)

/-- The new tuple finds room, on a page that is not in the pool. -/
def Lands (db : Database σ) (rel : Relation) (values : List Bytes) : Prop :=
  (slotOf db.cache.disk.pool (openPage rel) = none ∨ PageFull db rel values) ∧
    (PageFull db rel values → ∃ encoded page slot,
      serializeTuple (newTuple values db.wal.currentXid) = .ok encoded ∧
        HeapPage.new.addTuple encoded = some (page, some slot))

/-- A successful insert that finds room puts the tuple where a fetch finds it. -/
theorem tupleInsert_lands {P : Tuple → Prop} (h : Sane P relOid rel db) {values : List Bytes}
    (hok : tupleInsert relOid values db = .ok () db') (hlands : Lands db rel values) :
    ∃ rel' p slot, db'.cache.rels.lookup relOid = some rel' ∧ p ∈ rel'.pages ∧
      SlotIn (pooledRead db'.cache.disk p) slot (newTuple values db.wal.currentXid) := by
  obtain ⟨page, encoded, hpage, hencoded, hcases⟩ := tupleInsert_eq_ok h.registered hok
  obtain ⟨page₀, hholds, rfl⟩ := holds_of_pageAt (codedAt_open (h.coded _)) hpage
  have hwf := wellFormed_stored hholds.wellFormed
  have hnonempty := serializeTuple_ne_nil hencoded
  rcases hcases with ⟨page', slot, data, hadd, hdata, hcache⟩ |
    ⟨next, page', slot, data, data', hadd, hnext, hnew, hdata', hdata, hcache⟩
  · rw [hcache]
    have hnone : slotOf db.cache.disk.pool (openPage rel) = none :=
      hlands.1.resolve_right (not_pageFull hpage hencoded hadd)
    refine ⟨_, openPage rel, slot.toNat, AList.lookup_insert _, openPage_mem_openPages rel, ?_⟩
    have hpool : pooledRead (withStorage db.cache (writePage (openStorage
        db.cache.disk.storage rel) (openPage rel) data).2).disk (openPage rel) =
          readPage (writePage (openStorage db.cache.disk.storage rel) (openPage rel) data).2
            (openPage rel) := pooledRead_disk hnone
    exact hpool ▸ slotIn_write (wellFormed_addTuple hwf hnonempty hadd) hdata
      (slotHolds_added hwf hencoded hadd)
  · rw [hcache]
    obtain ⟨encoded₁, page₁, slot₁, hencoded₁, hnew₁⟩ :=
      hlands.2 ⟨_, encoded, hpage, hencoded, hadd⟩
    rw [hencoded] at hencoded₁
    cases hencoded₁
    rw [hnew] at hnew₁
    cases hnew₁
    have hneNext {q : PageId} (hq : q ∈ openPages rel) := ne_nextPageId h.increasing hq hnext
    have hnone : slotOf db.cache.disk.pool next = none := by
      by_contra hmapped
      exact hneNext ((prefix_openPages rel).subset (h.mem_of_mapped hmapped)) rfl
    refine ⟨_, next, slot₁.toNat, AList.lookup_insert _,
      List.mem_append_right _ (List.mem_singleton_self _), ?_⟩
    have hstored : SlotIn (readPage (writePage (writePage (openStorage
        db.cache.disk.storage rel) next data').2 (openPage rel) data).2 next) slot₁.toNat
          (newTuple values db.wal.currentXid) := by
      apply slotIn_write_of_ne (hneNext (openPage_mem_openPages rel)).symm
      exact slotIn_write (wellFormed_addTuple wellFormed_new hnonempty hnew) hdata'
        (slotHolds_added wellFormed_new hencoded hnew)
    have hpool : pooledRead (withStorage db.cache (writePage (writePage (openStorage
        db.cache.disk.storage rel) next data').2 (openPage rel) data).2).disk next =
          readPage (writePage (writePage (openStorage db.cache.disk.storage rel) next
            data').2 (openPage rel) data).2 next := pooledRead_disk hnone
    exact hpool ▸ hstored

end Insert

end PostgressRs.Executor.RowVersions
