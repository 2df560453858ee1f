import PostgressRs.Executor.HeapAccess
import PostgressRs.Storage.PageRoundTrip

/-!
What the heap functions do to the cache, one lemma for each, over a store whose
writes succeed.
-/

namespace PostgressRs.Executor.HeapSteps

open PostgressRs.BufferCache.PagePool
open PostgressRs.BufferCache.SharedCache
open PostgressRs.Executor.HeapAccess
open PostgressRs.Lib.ByteBuffer
open PostgressRs.Lib.Procedure
open PostgressRs.Storage.PageRoundTrip
open PostgressRs.Storage.PageStore
open PostgressRs.Storage.SlottedPage
open PostgressRs.Txn.TransactionTable
open PostgressRs.Types
open PostgressRs.Wal.LogRecord
open PostgressRs.Wal.WriteAheadLog

section Primitives

variable {σ : Type}

def withStorage (cache : SharedBufferCache σ) (storage : σ) : SharedBufferCache σ :=
  { cache with disk := { cache.disk with storage := storage } }

theorem getRelationState_apply (db : Database σ) (relOid : Oid) :
    onCache (getRelationState relOid) db =
      match db.cache.rels.lookup relOid with
      | some rel => .ok rel db
      | none => .err "Relation not found" db := by
  simp only [onCache, within, getRelationState]
  cases db.cache.rels.lookup relOid with
  | none => rfl
  | some rel => rfl

theorem getRelationState_eq_ok {db db' : Database σ} {relOid : Oid} {rel : Relation} :
    onCache (getRelationState relOid) db = .ok rel db' ↔
      db.cache.rels.lookup relOid = some rel ∧ db = db' := by
  rw [getRelationState_apply]
  cases db.cache.rels.lookup relOid with
  | none => simp
  | some rel' => simp

theorem getRelationState_eq_err {db db' : Database σ} {relOid : Oid} {e : String}
    (h : onCache (getRelationState relOid) db = .err e db') : db' = db := by
  rw [getRelationState_apply] at h
  split at h
  · simp at h
  · cases h
    rfl

theorem allocateXid_apply (db : Database σ) :
    onWal allocateXid db =
      .ok db.wal.currentXid
        { db with wal := { db.wal with currentXid := db.wal.currentXid + 1 } } := rfl

theorem setRelation_apply (db : Database σ) (relOid : Oid) (rel : Relation) :
    onCache (setRelation relOid rel) db =
      .ok () { db with cache := { db.cache with rels := db.cache.rels.insert relOid rel } } := rfl

theorem onWal_ok {α : Type} {p : Proc WAL α} {cache : SharedBufferCache σ} {wal wal' : WAL} {a : α}
    (h : p wal = .ok a wal') : onWal p ⟨cache, wal⟩ = .ok a ⟨cache, wal'⟩ := by
  apply within_eq_ok.mpr
  exact ⟨wal', h, rfl⟩

theorem onWal_cache {α : Type} {p : Proc WAL α} {db db' : Database σ}
    (h : (onWal p db).state? = some db') : db'.cache = db.cache := by
  unfold onWal within at h
  split at h
  · cases h
    rfl
  · cases h
    rfl
  · cases h

theorem onWal_discard_cache {α β : Type} {p : Proc WAL α} {b : β} {db db' : Database σ}
    (h : ((onWal p >>= fun _ => pure b) db).state? = some db') : db'.cache = db.cache := by
  rcases bind_state.mp h with ⟨e, herr⟩ | ⟨a, db₁, hok, h⟩
  · exact onWal_cache (by rw [herr]; rfl)
  · cases h
    exact onWal_cache (by rw [hok]; rfl)

variable [StorageTrait σ]

/-- Page `p` of the store decodes to `page`. -/
def PageAt (storage : σ) (p : PageId) (page : HeapPage) : Prop :=
  ∃ data, readPage storage p = .ok data ∧ HeapPage.deserialize data = some page

theorem pageAt_unique {storage : σ} {p : PageId} {page page' : HeapPage}
    (h : PageAt storage p page) (h' : PageAt storage p page') : page = page' := by
  obtain ⟨data, hread, hpage⟩ := h
  obtain ⟨data', hread', hpage'⟩ := h'
  rw [hread] at hread'
  cases hread'
  exact Option.some.inj (hpage.symm.trans hpage')

/-- The page that was read, if any. -/
def decoded : Except String Bytes → Option HeapPage
  | .ok data => HeapPage.deserialize data
  | .error _ => none

/-- The page that `p` decodes to. -/
def pageOf (storage : σ) (p : PageId) : Option HeapPage := decoded (readPage storage p)

theorem pageOf_eq_some {storage : σ} {p : PageId} {page : HeapPage} :
    pageOf storage p = some page ↔ PageAt storage p page := by
  unfold pageOf PageAt
  cases readPage storage p with
  | ok data => simp [decoded]
  | error e => simp [decoded]

theorem readHeapPage_apply (db : Database σ) (p : PageId) :
    readHeapPage p db =
      match readPage db.cache.disk.storage p with
      | .ok data => orPanic (HeapPage.deserialize data) db
      | .error e => .err e db := by
  rw [readHeapPage, bind_apply]
  simp only [onCache, onDisk, within, readStorage]
  cases readPage db.cache.disk.storage p with
  | ok data => rfl
  | error e => rfl

theorem readHeapPage_eq_ok {db db' : Database σ} {p : PageId} {page : HeapPage} :
    readHeapPage p db = .ok page db' ↔ PageAt db.cache.disk.storage p page ∧ db = db' := by
  rw [readHeapPage_apply, PageAt]
  cases readPage db.cache.disk.storage p with
  | error e => simp
  | ok data =>
      cases hdes : HeapPage.deserialize data with
      | none => simp [hdes]
      | some page' => simp [hdes]

theorem readHeapPage_eq_err {db db' : Database σ} {p : PageId} {e : String}
    (h : readHeapPage p db = .err e db') : db' = db := by
  rw [readHeapPage_apply] at h
  cases hread : readPage db.cache.disk.storage p with
  | error e' =>
      rw [hread] at h
      cases h
      rfl
  | ok data =>
      rw [hread] at h
      cases hdes : HeapPage.deserialize data with
      | none => simp [hdes] at h
      | some page => simp [hdes] at h

variable [LawfulStorage σ]

theorem writeHeapPage_apply (db : Database σ) (p : PageId) (page : HeapPage) :
    writeHeapPage p page db =
      match page.serialize with
      | some data =>
          .ok () { db with
            cache := withStorage db.cache (writePage db.cache.disk.storage p data).2 }
      | none => .panic := by
  rw [writeHeapPage, bind_apply]
  cases page.serialize with
  | none => rfl
  | some data =>
      have hok := LawfulStorage.write_ok db.cache.disk.storage p data
      rcases hwrite : writePage db.cache.disk.storage p data with ⟨result, storage⟩
      rw [hwrite] at hok
      simp only at hok
      subst hok
      simp [onCache, onDisk, within, writeStorage, hwrite, withStorage]

theorem writeHeapPage_ok {db : Database σ} {p : PageId} {page : HeapPage} {data : Bytes}
    (h : page.serialize = some data) :
    writeHeapPage p page db =
      .ok () { db with
        cache := withStorage db.cache (writePage db.cache.disk.storage p data).2 } := by
  rw [writeHeapPage_apply, h]

theorem writeHeapPage_not_err {db db' : Database σ} {p : PageId} {page : HeapPage} {e : String} :
    writeHeapPage p page db ≠ .err e db' := by
  rw [writeHeapPage_apply]
  cases page.serialize with
  | none => simp
  | some data => simp

theorem writeHeapPage_eq_ok {db db' : Database σ} {p : PageId} {page : HeapPage} :
    writeHeapPage p page db = .ok () db' ↔
      ∃ data, page.serialize = some data ∧
        db' = { db with
          cache := withStorage db.cache (writePage db.cache.disk.storage p data).2 } := by
  rw [writeHeapPage_apply]
  cases page.serialize with
  | none => simp
  | some data => simp [eq_comm]

/-- Page `p` was written as the image of `page`. -/
structure Held (storage : σ) (p : PageId) (page : HeapPage) : Prop where
  wellFormed : WellFormed page
  read_eq : readPage storage p = .ok (image page)

omit [LawfulStorage σ] in
theorem Held.pageAt {storage : σ} {p : PageId} {page : HeapPage} (h : Held storage p page) :
    PageAt storage p (stored page) :=
  ⟨image page, h.read_eq, deserialize_image h.wellFormed⟩

theorem held_write {page : HeapPage} (storage : σ) (p : PageId) (h : WellFormed page) :
    Held (writePage storage p (image page)).2 p page :=
  ⟨h, LawfulStorage.read_write_self storage p (image page)⟩

theorem Held.write_of_ne {storage : σ} {p q : PageId} {page : HeapPage} (h : Held storage p page)
    (hne : p ≠ q) (data : Bytes) : Held (writePage storage q data).2 p page :=
  ⟨h.wellFormed, (LawfulStorage.read_write_of_ne storage q p data hne).trans h.read_eq⟩

end Primitives

section Scans

variable [Bincode] {σ : Type} [StorageTrait σ]

/-- The rows of pages that are all on disk. -/
def diskRows (desc : TupleDesc) (snapshot : Snapshot) (filter : Option Filter)
    (pages : List (PageId × HeapPage)) : List Row :=
  pages.flatMap fun (p, page) => pageRows p page.tuples desc snapshot filter

theorem scanPages_ok {db : Database σ} (desc : TupleDesc) (snapshot : Snapshot)
    (filter : Option Filter) (pages : List (PageId × HeapPage))
    (h : ∀ entry ∈ pages, PageAt db.cache.disk.storage entry.1 entry.2) :
    scanPages desc snapshot filter (pages.map Prod.fst) db =
      .ok (diskRows desc snapshot filter pages) db := by
  induction pages with
  | nil => rfl
  | cons entry pages ih =>
      obtain ⟨p, page⟩ := entry
      have hread : readHeapPage p db = .ok page db :=
        readHeapPage_eq_ok.mpr ⟨h (p, page) List.mem_cons_self, rfl⟩
      have hrest := ih fun entry hentry => h entry (List.mem_cons_of_mem _ hentry)
      simp only [List.map_cons, scanPages, bind_apply, hread, hrest, pure_apply, diskRows,
        List.flatMap_cons]

theorem slowScan_ok {db : Database σ} {relOid : Oid} {rel : Relation}
    (hrel : db.cache.rels.lookup relOid = some rel) (filter : Option Filter)
    (pages : List (PageId × HeapPage)) (hpages : rel.pages = pages.map Prod.fst)
    (h : ∀ entry ∈ pages, PageAt db.cache.disk.storage entry.1 entry.2) :
    slowScan relOid filter db =
      .ok (diskRows rel.tupleDesc maxSnapshot filter pages) db := by
  have hget : onCache (getRelationState relOid) db = .ok rel db :=
    getRelationState_eq_ok.mpr ⟨hrel, rfl⟩
  rw [slowScan, bind_ok hget, hpages, scanPages_ok rel.tupleDesc maxSnapshot filter pages h]

/-- A scan's result depends on the pages it reads only. -/
theorem scanPages_congr {db db' : Database σ} (desc : TupleDesc) (snapshot : Snapshot)
    (filter : Option Filter) (pages : List PageId)
    (h : ∀ p ∈ pages, readPage db'.cache.disk.storage p = readPage db.cache.disk.storage p) :
    (scanPages desc snapshot filter pages db').result? =
      (scanPages desc snapshot filter pages db).result? := by
  induction pages with
  | nil => rfl
  | cons p pages ih =>
      have htail := ih fun q hq => h q (List.mem_cons_of_mem _ hq)
      have hhead := h p List.mem_cons_self
      rw [scanPages, bind_apply, bind_apply, readHeapPage_apply, readHeapPage_apply, hhead]
      cases readPage db.cache.disk.storage p with
      | error e => rfl
      | ok data =>
          cases hdes : HeapPage.deserialize data with
          | none => simp only [hdes, orPanic_none]
          | some page =>
              simp only [hdes, orPanic_some]
              rw [result_bind_pure, result_bind_pure, htail]

theorem slowScan_congr {db db' : Database σ} {relOid : Oid} (filter : Option Filter)
    (hrel : db'.cache.rels.lookup relOid = db.cache.rels.lookup relOid)
    (h : ∀ rel, db.cache.rels.lookup relOid = some rel → ∀ p ∈ rel.pages,
      readPage db'.cache.disk.storage p = readPage db.cache.disk.storage p) :
    (slowScan relOid filter db').result? = (slowScan relOid filter db).result? := by
  simp only [slowScan, bind_apply, getRelationState_apply, hrel]
  cases hlookup : db.cache.rels.lookup relOid with
  | none => rfl
  | some rel => exact scanPages_congr _ _ _ _ (h rel hlookup)

end Scans

section Insert

variable {σ : Type} [StorageTrait σ]

/-- The pages of a relation once it has one. -/
def openPages (rel : Relation) : List PageId :=
  match rel.pages.getLast? with
  | none => [⟨1⟩]
  | some _ => rel.pages

/-- The page inserts go to. -/
def openPage (rel : Relation) : PageId := rel.pages.getLast?.getD ⟨1⟩

/-- The store once the relation has a page. -/
def openStorage (storage : σ) (rel : Relation) : σ :=
  match rel.pages.getLast? with
  | none => (writePage storage ⟨1⟩ (image HeapPage.new)).2
  | some _ => storage

/-- The new tuple finds no room on the page that inserts go to. -/
def PageFull [Bincode] (db : Database σ) (rel : Relation) (values : List Bytes) : Prop :=
  ∃ page encoded, PageAt (openStorage db.cache.disk.storage rel) (openPage rel) page ∧
    serializeTuple (newTuple values db.wal.currentXid) = .ok encoded ∧
    page.addTuple encoded = some (page, none)

theorem not_pageFull [Bincode] {db : Database σ} {rel : Relation} {values : List Bytes}
    {page page' : HeapPage} {encoded : Bytes} {slot : UInt16}
    (hpage : PageAt (openStorage db.cache.disk.storage rel) (openPage rel) page)
    (hencoded : serializeTuple (newTuple values db.wal.currentXid) = .ok encoded)
    (hadd : page.addTuple encoded = some (page', some slot)) : ¬PageFull db rel values := by
  rintro ⟨page₁, encoded₁, hpage₁, hencoded₁, hfull⟩
  rw [pageAt_unique hpage₁ hpage] at hfull
  rw [hencoded] at hencoded₁
  cases hencoded₁
  rw [hadd] at hfull
  simp at hfull

/-- How a call of `tuple_insert`, failed or not, leaves the cache. -/
inductive Inserted [Bincode] (cache : SharedBufferCache σ) (relOid : Oid) (tup : Tuple) :
    SharedBufferCache σ → Prop
  | unchanged : Inserted cache relOid tup cache
  | opened {rel : Relation} :
      cache.rels.lookup relOid = some rel →
      Inserted cache relOid tup (withStorage cache (openStorage cache.disk.storage rel))
  | added {rel : Relation} {page page' : HeapPage} {encoded data : Bytes} {slot : UInt16} :
      cache.rels.lookup relOid = some rel →
      PageAt (openStorage cache.disk.storage rel) (openPage rel) page →
      serializeTuple tup = .ok encoded →
      page.addTuple encoded = some (page', some slot) →
      page'.serialize = some data →
      Inserted cache relOid tup
        { withStorage cache
            (writePage (openStorage cache.disk.storage rel) (openPage rel) data).2 with
          rels := cache.rels.insert relOid { rel with pages := openPages rel } }
  | extended {rel : Relation} {page page' : HeapPage} {next : PageId}
      {encoded data data' : Bytes} {slot : Option UInt16} :
      cache.rels.lookup relOid = some rel →
      PageAt (openStorage cache.disk.storage rel) (openPage rel) page →
      serializeTuple tup = .ok encoded →
      page.addTuple encoded = some (page, none) →
      nextPageId (openPage rel) = some next →
      HeapPage.new.addTuple encoded = some (page', slot) →
      page'.serialize = some data' →
      page.serialize = some data →
      Inserted cache relOid tup
        { withStorage cache
            (writePage (writePage (openStorage cache.disk.storage rel) next data').2
              (openPage rel) data).2 with
          rels := cache.rels.insert relOid { rel with pages := openPages rel ++ [next] } }

variable [LawfulStorage σ]

theorem insertPage_apply (db : Database σ) (rel : Relation) :
    insertPage rel db =
      .ok ({ rel with pages := openPages rel }, openPage rel)
        { db with cache := withStorage db.cache (openStorage db.cache.disk.storage rel) } := by
  unfold insertPage openPages openPage openStorage
  cases hlast : rel.pages.getLast? with
  | none =>
      have hnil : rel.pages = [] := List.getLast?_eq_none_iff.mp hlast
      simp only [bind_apply, writeHeapPage_ok (serialize_eq_image wellFormed_new), hnil]
      rfl
  | some p => rfl

theorem tupleInsert_state [Bincode] {db db' : Database σ} {relOid : Oid} {values : List Bytes}
    (h : (tupleInsert relOid values db).state? = some db') :
    Inserted db.cache relOid (newTuple values db.wal.currentXid) db'.cache := by
  unfold tupleInsert at h
  rcases bind_state.mp h with ⟨e, herr⟩ | ⟨rel, db₁, hget, h⟩
  · rw [getRelationState_eq_err herr]
    exact Inserted.unchanged
  obtain ⟨hrel, rfl⟩ := getRelationState_eq_ok.mp hget
  rw [bind_apply, insertPage_apply] at h
  simp only at h
  rcases bind_state.mp h with ⟨e, herr⟩ | ⟨page, db₂, hread, h⟩
  · rw [readHeapPage_eq_err herr]
    exact Inserted.opened hrel
  obtain ⟨hpage, rfl⟩ := readHeapPage_eq_ok.mp hread
  rw [bind_apply, allocateXid_apply] at h
  simp only at h
  rcases bind_state.mp h with ⟨e, herr⟩ | ⟨encoded, db₃, hser, h⟩
  · rw [ofExcept_eq_err herr]
    exact Inserted.opened hrel
  obtain ⟨hencoded, rfl⟩ := ofExcept_eq_ok.mp hser
  rcases bind_state.mp h with ⟨e, herr⟩ | ⟨⟨page', slot⟩, db₄, hput, h⟩
  · exact absurd herr orPanic_not_err
  obtain ⟨hadd, rfl⟩ := orPanic_eq_ok.mp hput
  cases slot with
  | some slot =>
      rcases bind_state.mp h with ⟨e, herr⟩ | ⟨_, db₅, hwrite, h⟩
      · exact absurd herr writeHeapPage_not_err
      obtain ⟨data, hdata, rfl⟩ := writeHeapPage_eq_ok.mp hwrite
      rw [bind_apply, setRelation_apply] at h
      simp only at h
      rw [onWal_discard_cache h]
      exact Inserted.added hrel hpage hencoded hadd hdata
  | none =>
      have hsame := addTuple_refused hadd
      rw [hsame] at hadd h
      rcases bind_state.mp h with ⟨e, herr⟩ | ⟨next, db₅, hincr, h⟩
      · exact absurd herr orPanic_not_err
      obtain ⟨hnext, rfl⟩ := orPanic_eq_ok.mp hincr
      rcases bind_state.mp h with ⟨e, herr⟩ | ⟨⟨newPage, newSlot⟩, db₆, hput, h⟩
      · exact absurd herr orPanic_not_err
      obtain ⟨hnew, rfl⟩ := orPanic_eq_ok.mp hput
      rcases bind_state.mp h with ⟨e, herr⟩ | ⟨_, db₇, hwrite, h⟩
      · exact absurd herr writeHeapPage_not_err
      obtain ⟨data', hdata', rfl⟩ := writeHeapPage_eq_ok.mp hwrite
      rcases bind_state.mp h with ⟨e, herr⟩ | ⟨_, db₈, hwrite, h⟩
      · exact absurd herr writeHeapPage_not_err
      obtain ⟨data, hdata, rfl⟩ := writeHeapPage_eq_ok.mp hwrite
      rw [bind_apply, setRelation_apply] at h
      simp only at h
      rw [onWal_discard_cache h]
      exact Inserted.extended hrel hpage hencoded hadd hnext hnew hdata' hdata

/-- A successful insert added the tuple to the open page or to a new one. -/
theorem tupleInsert_eq_ok [Bincode] {db db' : Database σ} {relOid : Oid} {rel : Relation}
    {values : List Bytes} (hrel : db.cache.rels.lookup relOid = some rel)
    (h : tupleInsert relOid values db = .ok () db') :
    ∃ page encoded, PageAt (openStorage db.cache.disk.storage rel) (openPage rel) page ∧
      serializeTuple (newTuple values db.wal.currentXid) = .ok encoded ∧
      ((∃ page' slot data, page.addTuple encoded = some (page', some slot) ∧
          page'.serialize = some data ∧
          db'.cache =
            { withStorage db.cache
                (writePage (openStorage db.cache.disk.storage rel) (openPage rel) data).2 with
              rels := db.cache.rels.insert relOid { rel with pages := openPages rel } }) ∨
        ∃ next page' slot data data', page.addTuple encoded = some (page, none) ∧
          nextPageId (openPage rel) = some next ∧
          HeapPage.new.addTuple encoded = some (page', slot) ∧ page'.serialize = some data' ∧
          page.serialize = some data ∧
          db'.cache =
            { withStorage db.cache
                (writePage (writePage (openStorage db.cache.disk.storage rel) next data').2
                  (openPage rel) data).2 with
              rels :=
                db.cache.rels.insert relOid { rel with pages := openPages rel ++ [next] } }) := by
  have hget : onCache (getRelationState relOid) db = .ok rel db :=
    getRelationState_eq_ok.mpr ⟨hrel, rfl⟩
  rw [tupleInsert, bind_ok hget, bind_ok (insertPage_apply db rel)] at h
  obtain ⟨page, _, hread, h⟩ := bind_eq_ok.mp h
  obtain ⟨hpage, rfl⟩ := readHeapPage_eq_ok.mp hread
  rw [bind_ok (allocateXid_apply _)] at h
  obtain ⟨encoded, _, hser, h⟩ := bind_eq_ok.mp h
  obtain ⟨hencoded, rfl⟩ := ofExcept_eq_ok.mp hser
  obtain ⟨⟨page', slot⟩, _, hput, h⟩ := bind_eq_ok.mp h
  obtain ⟨hadd, rfl⟩ := orPanic_eq_ok.mp hput
  refine ⟨page, encoded, hpage, hencoded, ?_⟩
  cases slot with
  | some slot =>
      obtain ⟨_, _, hwrite, h⟩ := bind_eq_ok.mp h
      obtain ⟨data, hdata, rfl⟩ := writeHeapPage_eq_ok.mp hwrite
      rw [bind_ok (setRelation_apply _ _ _)] at h
      have hcache := onWal_discard_cache (by rw [h]; rfl)
      exact Or.inl ⟨page', slot, data, hadd, hdata, hcache⟩
  | none =>
      obtain ⟨next, _, hput, h⟩ := bind_eq_ok.mp h
      obtain ⟨hnext, rfl⟩ := orPanic_eq_ok.mp hput
      obtain ⟨⟨newPage, newSlot⟩, _, hput, h⟩ := bind_eq_ok.mp h
      obtain ⟨hnew, rfl⟩ := orPanic_eq_ok.mp hput
      obtain ⟨_, _, hwrite, h⟩ := bind_eq_ok.mp h
      obtain ⟨data', hdata', rfl⟩ := writeHeapPage_eq_ok.mp hwrite
      obtain ⟨_, _, hwrite, h⟩ := bind_eq_ok.mp h
      obtain ⟨data, hdata, rfl⟩ := writeHeapPage_eq_ok.mp hwrite
      rw [bind_ok (setRelation_apply _ _ _)] at h
      have hcache := onWal_discard_cache (by rw [h]; rfl)
      obtain rfl := addTuple_refused hadd
      exact Or.inr ⟨next, newPage, newSlot, data, data', hadd, hnext, hnew, hdata', hdata, hcache⟩

section Forward

variable [Bincode] {db : Database σ} {relOid : Oid} {rel : Relation} {values : List Bytes}
  {page page' : HeapPage} {encoded : Bytes}

theorem tupleInsert_panic (hrel : db.cache.rels.lookup relOid = some rel)
    (hpage : PageAt (openStorage db.cache.disk.storage rel) (openPage rel) page)
    (hencoded : serializeTuple (newTuple values db.wal.currentXid) = .ok encoded)
    (hadd : page.addTuple encoded = none) : tupleInsert relOid values db = .panic := by
  have hget : onCache (getRelationState relOid) db = .ok rel db :=
    getRelationState_eq_ok.mpr ⟨hrel, rfl⟩
  rw [tupleInsert, bind_ok hget, bind_ok (insertPage_apply db rel)]
  simp only
  rw [bind_ok (readHeapPage_eq_ok.mpr ⟨hpage, rfl⟩), bind_ok (allocateXid_apply _), hencoded,
    bind_ok (ofExcept_ok _ _), hadd, bind_panic (orPanic_none _)]

theorem tupleInsert_added {data : Bytes} {slot : UInt16} {lsn : Nat} {wal : WAL}
    (hrel : db.cache.rels.lookup relOid = some rel)
    (hpage : PageAt (openStorage db.cache.disk.storage rel) (openPage rel) page)
    (hencoded : serializeTuple (newTuple values db.wal.currentXid) = .ok encoded)
    (hadd : page.addTuple encoded = some (page', some slot))
    (hdata : page'.serialize = some data)
    (happend : append (.insert relOid (openPage rel) (newTuple values db.wal.currentXid))
      { db.wal with currentXid := db.wal.currentXid + 1 } = .ok lsn wal) :
    tupleInsert relOid values db =
      .ok ()
        { cache :=
            { withStorage db.cache
                (writePage (openStorage db.cache.disk.storage rel) (openPage rel) data).2 with
              rels := db.cache.rels.insert relOid { rel with pages := openPages rel } }
          wal := wal } := by
  have hget : onCache (getRelationState relOid) db = .ok rel db :=
    getRelationState_eq_ok.mpr ⟨hrel, rfl⟩
  rw [tupleInsert, bind_ok hget, bind_ok (insertPage_apply db rel)]
  simp only
  rw [bind_ok (readHeapPage_eq_ok.mpr ⟨hpage, rfl⟩), bind_ok (allocateXid_apply _), hencoded,
    bind_ok (ofExcept_ok _ _), hadd, bind_ok (orPanic_some _ _)]
  simp only
  rw [bind_ok (writeHeapPage_ok hdata), bind_ok (setRelation_apply _ _ _)]
  exact bind_ok (onWal_ok happend)

theorem tupleInsert_extended {data data' : Bytes} {slot : Option UInt16} {next : PageId}
    {lsn : Nat} {wal : WAL}
    (hrel : db.cache.rels.lookup relOid = some rel)
    (hpage : PageAt (openStorage db.cache.disk.storage rel) (openPage rel) page)
    (hencoded : serializeTuple (newTuple values db.wal.currentXid) = .ok encoded)
    (hadd : page.addTuple encoded = some (page, none))
    (hnext : nextPageId (openPage rel) = some next)
    (hnew : HeapPage.new.addTuple encoded = some (page', slot))
    (hdata' : page'.serialize = some data') (hdata : page.serialize = some data)
    (happend : append (.insert relOid next (newTuple values db.wal.currentXid))
      { db.wal with currentXid := db.wal.currentXid + 1 } = .ok lsn wal) :
    tupleInsert relOid values db =
      .ok ()
        { cache :=
            { withStorage db.cache
                (writePage
                  (writePage (openStorage db.cache.disk.storage rel) next data').2
                  (openPage rel) data).2 with
              rels := db.cache.rels.insert relOid { rel with pages := openPages rel ++ [next] } }
          wal := wal } := by
  have hget : onCache (getRelationState relOid) db = .ok rel db :=
    getRelationState_eq_ok.mpr ⟨hrel, rfl⟩
  rw [tupleInsert, bind_ok hget, bind_ok (insertPage_apply db rel)]
  simp only
  rw [bind_ok (readHeapPage_eq_ok.mpr ⟨hpage, rfl⟩), bind_ok (allocateXid_apply _), hencoded,
    bind_ok (ofExcept_ok _ _), hadd, bind_ok (orPanic_some _ _)]
  simp only
  rw [hnext, bind_ok (orPanic_some _ _), hnew, bind_ok (orPanic_some _ _)]
  simp only
  rw [bind_ok (writeHeapPage_ok hdata'), bind_ok (writeHeapPage_ok hdata),
    bind_ok (setRelation_apply _ _ _)]
  exact bind_ok (onWal_ok happend)

end Forward

end Insert

end PostgressRs.Executor.HeapSteps
