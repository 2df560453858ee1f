import PostgressRs.Executor.PooledScan
import PostgressRs.Executor.SnapshotStability

/-!
A table that is only inserted into: what each insert adds to it, and that every snapshot that
sees the inserts finds the same rows in the same order.
-/

namespace PostgressRs.Executor.InsertedTables

open PostgressRs.BufferCache.PagePool
open PostgressRs.BufferCache.PinnedPool
open PostgressRs.BufferCache.SharedCache
open PostgressRs.Executor.HeapAccess
open PostgressRs.Executor.HeapContents
open PostgressRs.Executor.HeapInvariant
open PostgressRs.Executor.HeapSteps
open PostgressRs.Executor.InsertComplete
open PostgressRs.Executor.PooledScan
open PostgressRs.Executor.RowVersions
open PostgressRs.Executor.SnapshotStability
open PostgressRs.Executor.VersionChanges
open PostgressRs.Lib.ByteBuffer
open PostgressRs.Lib.Procedure
open PostgressRs.Lib.Utf8
open PostgressRs.Storage.PageContents
open PostgressRs.Storage.PageRoundTrip
open PostgressRs.Storage.PageStore
open PostgressRs.Storage.SlottedPage
open PostgressRs.Txn.TransactionTable
open PostgressRs.Types
open PostgressRs.Wal.LogRecord
open PostgressRs.Wal.WriteAheadLog

section Log

variable [Bincode]

omit [Bincode] in
theorem ensures_writeRecord (current : Nat) (data : Bytes) (wal : WAL) :
    Ensures (writeRecord current data) wal (fun _ _ => True) (fun _ => False) := by
  refine ensures_ok_bind (read_apply id wal) (ensures_orPanic_bind fun segment _ => ?_)
  dsimp only
  rw [EphemeralStorage.readPage_eq]
  refine ensures_ok_bind (ofExcept_ok _ _) (ensures_orPanic_bind fun page _ => ?_)
  rw [EphemeralStorage.writePage_eq]
  exact ensures_ok_bind (modify_apply _ _) trivial

/-- The log takes every record that can be encoded, or the call panics. -/
theorem append_returns {record : WALRecord} {data : Bytes}
    (hdata : serializeRecord record = .ok data) (wal : WAL) :
    append record wal = .panic ∨
      ∃ lsn wal', append record wal = .ok lsn wal' ∧ wal'.currentXid = wal.currentXid := by
  have hends : Ensures (append record) wal (fun _ _ => True) (fun _ => False) := by
    refine ensures_ok_bind (by rw [hdata]; rfl) (ensures_ok_bind (read_apply id wal) ?_)
    dsimp only
    split
    · trivial
    · refine ensures_orPanic_bind fun current _ => ensures_orPanic_bind fun lsn _ => ?_
      refine ensures_ok_bind (modify_apply _ _) ?_
      exact ensures_bind (ensures_writeRecord current data _) fun _ _ _ => trivial
  unfold Ensures at hends
  cases happend : append record wal with
  | ok lsn wal' => exact .inr ⟨lsn, wal', rfl, (keeps_append record).ok happend⟩
  | err e wal' =>
      rw [happend] at hends
      exact hends.elim
  | panic => exact .inl rfl

end Log

section Insert

variable [Bincode] {σ : Type} [StorageTrait σ] [LawfulStorage σ] {db : Database σ} {relOid : Oid}
  {rel : Relation} {values : List Bytes} {page page' : HeapPage} {encoded : Bytes}

/-- What is left to do of an insert once the pages are written. -/
def logged (relOid : Oid) (p : PageId) (tup : Tuple) : Proc (Database σ) Unit := do
  let _ ← onWal (append (.insert relOid p tup))
  pure ()

theorem tupleInsert_room {data : Bytes} {slot : UInt16}
    (hrel : db.cache.rels.lookup relOid = some rel)
    (hpage : PageAt (openStorage db.cache.disk.storage rel) (openPage rel) page)
    (hencoded : serializeTuple (newTuple values db.wal.currentXid) = .ok encoded)
    (hadd : page.addTuple encoded = some (page', some slot))
    (hdata : page'.serialize = some data) :
    tupleInsert relOid values db =
      logged relOid (openPage rel) (newTuple values db.wal.currentXid)
        { cache :=
            { withStorage db.cache
                (writePage (openStorage db.cache.disk.storage rel) (openPage rel) data).2 with
              rels := db.cache.rels.insert relOid { rel with pages := openPages rel } }
          wal := { db.wal with currentXid := db.wal.currentXid + 1 } } := by
  have hget : onCache (getRelationState relOid) db = .ok rel db :=
    getRelationState_eq_ok.mpr ⟨hrel, rfl⟩
  rw [tupleInsert, bind_ok hget, bind_ok (insertPage_apply db rel)]
  simp only
  rw [bind_ok (readHeapPage_eq_ok.mpr ⟨hpage, rfl⟩), bind_ok (allocateXid_apply _), hencoded,
    bind_ok (ofExcept_ok _ _), hadd, bind_ok (orPanic_some _ _)]
  simp only
  rw [bind_ok (writeHeapPage_ok hdata), bind_ok (setRelation_apply _ _ _)]
  rfl

theorem tupleInsert_full {data data' : Bytes} {slot : Option UInt16} {next : PageId}
    (hrel : db.cache.rels.lookup relOid = some rel)
    (hpage : PageAt (openStorage db.cache.disk.storage rel) (openPage rel) page)
    (hencoded : serializeTuple (newTuple values db.wal.currentXid) = .ok encoded)
    (hadd : page.addTuple encoded = some (page, none))
    (hnext : nextPageId (openPage rel) = some next)
    (hnew : HeapPage.new.addTuple encoded = some (page', slot))
    (hdata' : page'.serialize = some data') (hdata : page.serialize = some data) :
    tupleInsert relOid values db =
      logged relOid next (newTuple values db.wal.currentXid)
        { cache :=
            { withStorage db.cache
                (writePage
                  (writePage (openStorage db.cache.disk.storage rel) next data').2
                  (openPage rel) data).2 with
              rels := db.cache.rels.insert relOid { rel with pages := openPages rel ++ [next] } }
          wal := { db.wal with currentXid := db.wal.currentXid + 1 } } := by
  have hget : onCache (getRelationState relOid) db = .ok rel db :=
    getRelationState_eq_ok.mpr ⟨hrel, rfl⟩
  rw [tupleInsert, bind_ok hget, bind_ok (insertPage_apply db rel)]
  simp only
  rw [bind_ok (readHeapPage_eq_ok.mpr ⟨hpage, rfl⟩), bind_ok (allocateXid_apply _), hencoded,
    bind_ok (ofExcept_ok _ _), hadd, bind_ok (orPanic_some _ _)]
  simp only
  rw [hnext, bind_ok (orPanic_some _ _), hnew, bind_ok (orPanic_some _ _)]
  simp only
  rw [bind_ok (writeHeapPage_ok hdata'), bind_ok (writeHeapPage_ok hdata),
    bind_ok (setRelation_apply _ _ _)]
  rfl

variable [LawfulBincode]

omit [StorageTrait σ] [LawfulStorage σ] in
theorem logged_returns {p : PageId} {tup : Tuple} (hencoded : serializeTuple tup = .ok encoded)
    (db : Database σ) :
    logged relOid p tup db = .panic ∨
      ∃ db', logged relOid p tup db = .ok () db' ∧ db'.cache = db.cache ∧
        db'.wal.currentXid = db.wal.currentXid := by
  obtain ⟨data, hdata, _⟩ := LawfulBincode.serialize_insert relOid p hencoded
  obtain hpanic | ⟨lsn, wal, happend, hxid⟩ := append_returns hdata db.wal
  · left
    rw [logged]
    apply bind_panic
    rw [onWal, within, hpanic]
  · exact .inr ⟨_, bind_ok (onWal_ok happend), rfl, hxid⟩

variable {desc : TupleDesc} {rows : List (List String)} {row : List String}
  {pages : List HeapPage}

/-- An insert into a filled relation adds its row behind the others, or it panics. -/
theorem insert_filled (h : Filled db relOid desc rows pages)
    (hencoded : serializeTuple (newTuple values db.wal.currentXid) = .ok encoded)
    (hsize : encoded.length + 30 ≤ 8192) (hrow : Encodes desc encoded row)
    (hrows : rows.length + 1 < 2 ^ 32 - 1) :
    tupleInsert relOid values db = .panic ∨
      ∃ db' pages', tupleInsert relOid values db = .ok () db' ∧
        Filled db' relOid desc (rows ++ [row]) pages' ∧
        db'.wal.currentXid = db.wal.currentXid + 1 := by
  by_cases hupper : FitsUpper db relOid values
  · obtain ⟨rel, hrel, _⟩ := h.registered
    -- the log has no part in what becomes of the pages, so they are those of an empty log
    let twin : Database σ := ⟨db.cache, { WAL.new 8192 with currentXid := db.wal.currentXid }⟩
    have hready : Ready twin.wal (0 + 1) := by
      have hnew : Ready (WAL.new 8192) (0 + 1) := ready_new (by decide) (by decide)
      exact ⟨hnew.segment_pos, hnew.page_length, hnew.lsn_lt⟩
    have htwin : Filled twin relOid desc rows pages := h.of_storage rfl rfl
    obtain ⟨db₀, pages', hinsert, hfilled, _⟩ :=
      filled_insert htwin hencoded hsize hrow hupper hrows hready
    have hrelTwin : twin.cache.rels.lookup relOid = some rel := hrel
    obtain ⟨page, encoded', hpage, hencoded', hcases⟩ := tupleInsert_eq_ok hrelTwin hinsert
    obtain rfl : encoded = encoded' := Except.ok.inj (hencoded.symm.trans hencoded')
    obtain ⟨page', slot, data, hadd, hdata, hcache⟩ |
      ⟨next, page', slot, data, data', hadd, hnext, hnew, hdata', hdata, hcache⟩ := hcases
    · rw [tupleInsert_room hrel hpage hencoded hadd hdata]
      refine (logged_returns hencoded _).imp_right ?_
      rintro ⟨db', hlogged, hcache', hxid⟩
      rw [← hcache] at hcache'
      exact ⟨db', pages', hlogged, hfilled.of_storage (by rw [hcache']) (by rw [hcache']), hxid⟩
    · rw [tupleInsert_full hrel hpage hencoded hadd hnext hnew hdata' hdata]
      refine (logged_returns hencoded _).imp_right ?_
      rintro ⟨db', hlogged, hcache', hxid⟩
      rw [← hcache] at hcache'
      exact ⟨db', pages', hlogged, hfilled.of_storage (by rw [hcache']) (by rw [hcache']), hxid⟩
  · exact .inl (insert_panics hupper)

end Insert

section Tables

variable [Bincode] {σ : Type} [StorageTrait σ] {relOid : Oid} {desc : TupleDesc}
  {rows : List (List String)} {db : Database σ} {snapshot : Snapshot}

/-- The snapshot takes the first `n` transactions as done. -/
def Sees (n : Nat) (snapshot : Snapshot) : Prop :=
  ∀ i < n, Covers snapshot (UInt64.ofNat (i + 1))

/-- The table has had the rows inserted, in this order, and nothing has been read of it. -/
structure Stores (relOid : Oid) (desc : TupleDesc) (rows : List (List String)) (db : Database σ) :
    Prop where
  sane : ∃ rel, Sane (fun _ => True) relOid rel db
  filled : ∃ pages, Filled db relOid desc rows pages
  pool : db.cache.disk.pool = BufferPool.new 1024
  shown : ∀ snapshot, Sees rows.length snapshot → storedRows snapshot relOid db = rows
  xid : db.wal.currentXid = UInt64.ofNat (rows.length + 1)

omit [Bincode] in
theorem Sees.mono {m n : Nat} (h : Sees n snapshot) (hmn : m ≤ n) : Sees m snapshot :=
  fun i hi => h i (Nat.lt_of_lt_of_le hi hmn)

theorem stores_fresh {rel : Relation} (hrel : db.cache.rels.lookup relOid = some rel)
    (hempty : rel.pages = []) (hpool : db.cache.disk.pool = BufferPool.new 1024)
    (hxid : db.wal.currentXid = 1) : Stores relOid rel.tupleDesc [] db := by
  refine ⟨⟨rel, hrel, ?_, ?_, ?_, ?_, ?_⟩, ⟨[], ⟨rel, hrel, rfl, hempty⟩, .nil, ?_, ?_, .nil⟩,
    hpool, ?_, hxid⟩
  · simp [hempty]
  · simp [hempty]
  · simp [hempty]
  · rw [hpool]
    exact pinned_new (by decide) _
  · rw [hpool]
    rfl
  · simp
  · simp
  · intro snapshot _
    simp only [storedRows, hrel, hempty]
    rfl

variable [LawfulBincode] [LawfulStorage σ]

theorem Stores.insert (h : Stores relOid desc rows db) {values : List String}
    (hnul : NulFree values) (hfits : FitsEmptyPage values)
    (hcount : rows.length + 1 < 2 ^ 32 - 1) :
    tupleInsert relOid (values.map asBytes) db = .panic ∨
      ∃ db', tupleInsert relOid (values.map asBytes) db = .ok () db' ∧
        Stores relOid desc (rows ++ [fitRow desc.fields.length values]) db' := by
  obtain ⟨rel, hsane⟩ := h.sane
  obtain ⟨pages, hfilled⟩ := h.filled
  obtain ⟨encoded, hencoded, hsize⟩ := hfits db.wal.currentXid
  have hxid : db.wal.currentXid.toNat = rows.length + 1 := by
    rw [h.xid, UInt64.toNat_ofNat']
    exact Nat.mod_eq_of_lt (by omega)
  have hrow : Encodes desc encoded (fitRow desc.fields.length values) :=
    encodes_newTuple hnul (by omega) (by omega) hencoded
  refine (insert_filled hfilled hencoded hsize hrow hcount).imp_right ?_
  rintro ⟨db', pages', hinsert, hfilled', hnext⟩
  have hins : Inserted db.cache relOid (newTuple (values.map asBytes) db.wal.currentXid)
      db'.cache := tupleInsert_state (by rw [hinsert]; rfl)
  obtain ⟨rel', hsane', _⟩ := hsane.inserted trivial hins
  have hdesc : rel.tupleDesc = desc := by
    obtain ⟨rel₁, hrel₁, hdesc, _⟩ := hfilled.registered
    rw [hsane.registered] at hrel₁
    cases hrel₁
    exact hdesc
  refine ⟨db', hinsert, ⟨rel', hsane'⟩, ⟨pages', hfilled'⟩, ?_, ?_, ?_⟩
  · exact (inserted_grows hsane.increasing hins hsane.registered).1.trans h.pool
  · intro snapshot hsees
    rw [List.length_append, List.length_singleton] at hsees
    have hcovers : Covers snapshot db.wal.currentXid := by
      rw [h.xid]
      exact hsees rows.length (Nat.lt_succ_self _)
    have hfitsPage : FitsPage (newTuple (values.map asBytes) db.wal.currentXid) := by
      rw [FitsPage, encodedLength_eq hencoded, linePointerSize, pageSize, pageHeaderSize]
      omega
    rw [tupleInsert_storedRows hsane.registered hsane.increasing hsane.coded hinsert,
      h.shown snapshot (hsees.mono (Nat.le_succ _)), insertedRow, if_pos ⟨hfitsPage, hcovers⟩,
      decodeTupleValues_newTuple _ _ hnul, hdesc]
    rfl
  · rw [hnext, h.xid, List.length_append, List.length_singleton]
    exact (UInt64.ofNat_add _ _).symm

end Tables

section Scans

variable [Bincode] {σ : Type} [StorageTrait σ] {relOid : Oid} {desc : TupleDesc}
  {rows : List (List String)} {db : Database σ}

/-- Of versions that can all be seen a snapshot shows some, where they are. -/
theorem pageRows_sublist {tuples : List Bytes} {shown : List (List String)}
    (h : List.Forall₂ (Encodes desc) tuples shown) (p : PageId) (snapshot : Snapshot) :
    (pageRows p tuples desc snapshot none).Sublist (pageRows p tuples desc maxSnapshot none) := by
  unfold pageRows
  generalize 0 = start
  induction h generalizing start with
  | nil => exact List.Sublist.refl _
  | @cons bytes row tuples shown hhead _ ih =>
      obtain ⟨tup, hdecoded, hvisible, _⟩ := hhead
      rw [List.zipIdx_cons, List.filterMap_cons, List.filterMap_cons]
      simp only [slotRow, hdecoded, hvisible, scanFilter, if_true]
      by_cases hshown : isVisible tup snapshot = true
      · simp only [hshown, if_true]
        exact (ih (start + 1)).cons_cons _
      · simp only [hshown, Bool.false_eq_true, if_false]
        exact (ih (start + 1)).cons _

theorem scanRows_sublist {storage : σ} {ids : List PageId} {pages : List HeapPage}
    (hheld : List.Forall₂ (Held storage) ids pages) (hnormal : ∀ page ∈ pages, AllNormal page)
    (h : List.Forall₂ (Encodes desc) (pages.flatMap HeapPage.tuples) rows) (snapshot : Snapshot) :
    (scanRows (pageOf storage) desc snapshot ids).Sublist
        (scanRows (pageOf storage) desc maxSnapshot ids) ∧
      (scanRows (pageOf storage) desc maxSnapshot ids).map Prod.snd = rows := by
  induction hheld generalizing rows with
  | nil =>
      cases h
      exact ⟨List.Sublist.refl _, rfl⟩
  | @cons p page ids pages hpage _ ih =>
      rw [List.flatMap_cons] at h
      have hfirst := List.forall₂_take page.tuples.length h
      have hrest := List.forall₂_drop page.tuples.length h
      rw [List.take_left] at hfirst
      rw [List.drop_left] at hrest
      have hat : pageOf storage p = some (stored page) := pageOf_eq_some.mpr hpage.pageAt
      have htuples := stored_tuples hpage.wellFormed (hnormal page List.mem_cons_self)
      obtain ⟨hsub, hrows⟩ := ih (fun q hq => hnormal q (List.mem_cons_of_mem _ hq)) hrest
      simp only [scanRows, List.flatMap_cons, hat, htuples] at hsub hrows ⊢
      refine ⟨(pageRows_sublist hfirst p snapshot).append hsub, ?_⟩
      rw [List.map_append, hrows, pageRows_encodes hfirst, List.take_append_drop]

/-- Every snapshot that sees the first `n` transactions finds the same rows. -/
def Shows (relOid : Oid) (desc : TupleDesc) (n : Nat) (found : List Row) (db : Database σ) : Prop :=
  ∃ rel, Sane (fun _ => True) relOid rel db ∧ rel.tupleDesc = desc ∧ rel.pages.length ≤ 1024 ∧
    ∀ snapshot, Sees n snapshot →
      scanRows (pooledPage db.cache.disk) desc snapshot rel.pages = found

theorem Stores.shows (h : Stores relOid desc rows db)
    (hsize : ∀ rel, db.cache.rels.lookup relOid = some rel → rel.pages.length ≤ 1024) :
    ∃ found, found.map Prod.snd = rows ∧ Shows relOid desc rows.length found db := by
  obtain ⟨rel, hsane⟩ := h.sane
  obtain ⟨pages, hfilled⟩ := h.filled
  obtain ⟨rel₁, hrel₁, hdesc, hpages⟩ := hfilled.registered
  rw [hsane.registered] at hrel₁
  cases hrel₁
  have hscan (snapshot : Snapshot) := scanRows_sublist hfilled.held hfilled.normal hfilled.encodes
    snapshot
  rw [← hpages] at hscan
  refine ⟨scanRows (pageOf db.cache.disk.storage) desc maxSnapshot rel.pages,
    (hscan maxSnapshot).2, rel, hsane, hdesc, hsize rel hsane.registered, fun snapshot hsees => ?_⟩
  have hpooled : pooledPage db.cache.disk = pageOf db.cache.disk.storage := by
    funext p
    apply pooledPage_of_unmapped
    rw [h.pool]
    exact slotOf_new 1024 p
  rw [hpooled]
  -- as many rows as the table has, and some of them
  have hshown := h.shown snapshot hsees
  simp only [storedRows, hsane.registered, hdesc] at hshown
  refine (hscan snapshot).1.eq_of_length ?_
  have hcount := congrArg Multiset.card hshown
  rw [Multiset.coe_card, Multiset.coe_card, List.length_map] at hcount
  rw [hcount, ← (hscan snapshot).2, List.length_map]

/-- Reading the table gives what it shows, however often. -/
theorem Shows.gives {n : Nat} {found : List Row} {snapshot : Snapshot} (hsees : Sees n snapshot) :
    Gives (Shows relOid desc n found : Database σ → Prop)
      (heapScanWithOptionalSnapshot relOid (some snapshot)) found := by
  rintro db ⟨rel, hsane, hdesc, hsize, hshown⟩
  obtain ⟨hpanic, _⟩ | ⟨disk, hscan, hloaded, _, _, hsane'⟩ :=
    heapScan_sane hsane hsize (some snapshot)
  · exact .inl hpanic
  · rw [hdesc, Option.getD_some, hshown snapshot hsees] at hscan
    refine .inr ⟨_, hscan, rel, hsane', hdesc, hsize, fun snapshot' hsees' => ?_⟩
    have hpooled : pooledPage disk = pooledPage db.cache.disk := by
      funext p
      rw [pooledPage, pooledPage, hloaded.pooledRead_eq]
    rw [hpooled]
    exact hshown snapshot' hsees'

end Scans

end PostgressRs.Executor.InsertedTables
