import Mathlib.Data.List.TakeWhile
import PostgressRs.Executor.HeapSteps

/-!
A relation filled by inserts alone: the rows a scan returns, and when an insert
goes through.
-/

namespace PostgressRs.Executor.InsertComplete

open PostgressRs.BufferCache.PagePool
open PostgressRs.BufferCache.SharedCache
open PostgressRs.Executor.HeapAccess
open PostgressRs.Executor.HeapSteps
open PostgressRs.Lib.ByteBuffer
open PostgressRs.Lib.Procedure
open PostgressRs.Lib.Utf8
open PostgressRs.Storage.PageRoundTrip
open PostgressRs.Storage.PageStore
open PostgressRs.Storage.SlottedPage
open PostgressRs.Txn.TransactionTable
open PostgressRs.Types
open PostgressRs.Wal.LogRecord
open PostgressRs.Wal.WriteAheadLog

section Rows

/-- A row of `n` columns from the values given: superfluous values are dropped,
missing ones are empty. -/
def fitRow : Nat → List String → List String
  | 0, _ => []
  | n + 1, [] => "" :: fitRow n []
  | n + 1, value :: values => value :: fitRow n values

def NulFree (values : List String) : Prop := ∀ value ∈ values, (0 : UInt8) ∉ asBytes value

theorem fitRow_nil (n : Nat) : fitRow n [] = List.replicate n "" := by
  induction n with
  | zero => rfl
  | succ n ih => rw [fitRow, ih, List.replicate_succ]

theorem decodeFields_nil (n slots : Nat) : decodeFields n slots [] = List.replicate n "" := by
  induction n generalizing slots with
  | zero => rfl
  | succ n ih => rw [decodeFields, if_neg (by simp), ih, List.replicate_succ]

theorem takeWhile_value {value : Bytes} (hvalue : 0 ∉ value) (rest : Bytes) :
    (value ++ 0 :: rest).takeWhile (· ≠ 0) = value ∧
      (value ++ 0 :: rest).dropWhile (· ≠ 0) = 0 :: rest := by
  induction value with
  | nil => simp
  | cons byte value ih =>
      have hbyte : byte ≠ 0 := by
        rintro rfl
        exact hvalue List.mem_cons_self
      have htail := ih fun hmem => hvalue (List.mem_cons_of_mem _ hmem)
      simp only [List.cons_append, List.takeWhile_cons, List.dropWhile_cons, hbyte, ne_eq,
        not_false_eq_true, decide_true, if_true]
      exact ⟨congrArg _ htail.1, htail.2⟩

theorem takeWhile_last {value : Bytes} (hvalue : 0 ∉ value) :
    value.takeWhile (· ≠ 0) = value ∧ value.dropWhile (· ≠ 0) = [] := by
  have hall : ∀ byte ∈ value, decide (byte ≠ 0) = true := by
    intro byte hbyte
    simp only [ne_eq, decide_not, Bool.not_eq_eq_eq_not, Bool.not_true, decide_eq_false_iff_not]
    rintro rfl
    exact hvalue hbyte
  refine ⟨?_, ?_⟩
  · rw [List.takeWhile_eq_self_iff]
    exact hall
  · rw [List.dropWhile_eq_nil_iff]
    exact hall

theorem decodeFields_values (n : Nat) (values : List String) (hnul : NulFree values) :
    decodeFields n values.length ([0].intercalate (values.map asBytes)) = fitRow n values := by
  induction values generalizing n with
  | nil => rw [fitRow_nil]; exact decodeFields_nil n 0
  | cons value values ih =>
      have hvalue := hnul value List.mem_cons_self
      have hrest : NulFree values := fun v hv => hnul v (List.mem_cons_of_mem _ hv)
      cases n with
      | zero => rfl
      | succ n =>
          cases values with
          | nil =>
              simp only [List.map_cons, List.map_nil, List.intercalate_singleton,
                List.length_singleton]
              rw [fitRow, fitRow_nil, decodeFields]
              split
              · rw [(takeWhile_last hvalue).1, (takeWhile_last hvalue).2, fromUtf8_asBytes]
                rfl
              · rename_i hempty
                have hdata : asBytes value = [] := by simpa using hempty
                have hstring : value = "" := by
                  have hback := fromUtf8_asBytes value
                  rw [hdata, ← asBytes_empty, fromUtf8_asBytes] at hback
                  exact (Option.some.inj hback).symm
                rw [hdata, decodeFields_nil, hstring]
          | cons next values =>
              have hjoin : [0].intercalate ((value :: next :: values).map asBytes) =
                  asBytes value ++ 0 :: [0].intercalate ((next :: values).map asBytes) := by
                simp [List.intercalate_cons_cons]
              rw [hjoin, decodeFields, if_pos (by simp), (takeWhile_value hvalue _).1,
                (takeWhile_value hvalue _).2, fromUtf8_asBytes]
              simp only [Option.getD_some, List.length_cons, Nat.add_sub_cancel]
              rw [fitRow]
              exact congrArg _ (ih n hrest)

theorem decodeTupleValues_newTuple (desc : TupleDesc) (values : List String)
    (hnul : NulFree values) (xid : UInt64) :
    decodeTupleValues (newTuple (values.map asBytes) xid) desc =
      fitRow desc.fields.length values := by
  have hdecoded := decodeFields_values desc.fields.length values hnul
  simp only [decodeTupleValues, newTuple, List.length_map, List.length_range]
  split
  · rename_i hempty
    rw [List.isEmpty_iff] at hempty
    rw [← hdecoded, hempty, decodeFields_nil]
  · exact hdecoded

theorem isVisible_newTuple {values : List Bytes} {xid : UInt64} (hpos : 0 < xid.toNat)
    (hlt : xid.toNat < 2 ^ 32 - 1) :
    isVisible (newTuple values xid) maxSnapshot = true := by
  have hne : xid ≠ 0 := by
    rintro rfl
    exact absurd hpos (by decide)
  have hval : xid.toUInt32.toNat = xid.toNat := by
    rw [UInt64.toNat_toUInt32, Nat.mod_eq_of_lt (by omega)]
  have hbelow : xid.toUInt32 < 0xFFFFFFFF := by
    rw [UInt32.lt_iff_toNat_lt, hval]
    exact hlt
  simp [isVisible, newTuple, maxSnapshot, hne, hbelow]

variable [Bincode]

/-- A scan that sees every stamp below `u32::MAX` turns `bytes` into `row`. -/
def Encodes (desc : TupleDesc) (bytes : Bytes) (row : List String) : Prop :=
  ∃ tup, deserializeTuple bytes = .ok tup ∧ isVisible tup maxSnapshot = true ∧
    decodeTupleValues tup desc = row

theorem pageRows_encodes {desc : TupleDesc} {tuples : List Bytes} {rows : List (List String)}
    (h : List.Forall₂ (Encodes desc) tuples rows) (p : PageId) :
    (pageRows p tuples desc maxSnapshot none).map Prod.snd = rows := by
  unfold pageRows
  generalize 0 = start
  induction h generalizing start with
  | nil => rfl
  | cons hhead _ ih =>
      obtain ⟨tup, hdecoded, hvisible, hrow⟩ := hhead
      have hslot : ∀ i bytes, deserializeTuple bytes = .ok tup →
          slotRow p desc maxSnapshot none i bytes =
            some (⟨p, UInt16.ofNat i⟩, decodeTupleValues tup desc) := by
        intro i bytes hbytes
        simp [slotRow, hbytes, hvisible, scanFilter]
      rw [List.zipIdx_cons, List.filterMap_cons, hslot _ _ hdecoded]
      simp only [List.map_cons, hrow]
      exact congrArg _ (ih (start + 1))

end Rows

section Pages

def AllNormal (page : HeapPage) : Prop := ∀ lp ∈ page.linePointers, lp.lpFlags = lpNormal

theorem restored_of_normal (lps : List LinePointer) (tuples : List Bytes)
    (hlen : tuples.length = lps.length) (h : ∀ lp ∈ lps, lp.lpFlags = lpNormal) :
    restored lps tuples = tuples := by
  induction lps generalizing tuples with
  | nil =>
      have hnil : tuples = [] := List.length_eq_zero_iff.mp hlen
      rw [hnil]
      rfl
  | cons lp lps ih =>
      cases tuples with
      | nil => simp at hlen
      | cons tuple tuples =>
          rw [restored, if_pos (h lp List.mem_cons_self),
            ih tuples (by simpa using hlen) fun lp' hlp' => h lp' (List.mem_cons_of_mem _ hlp')]

theorem stored_tuples {page : HeapPage} (hpage : WellFormed page) (h : AllNormal page) :
    (stored page).tuples = page.tuples :=
  restored_of_normal page.linePointers page.tuples hpage.length_eq h

theorem allNormal_stored {page : HeapPage} (hpage : WellFormed page) (h : AllNormal page) :
    AllNormal (stored page) := by
  have hflags : (stored page).linePointers.map LinePointer.lpFlags =
      page.linePointers.map LinePointer.lpFlags :=
    relocate_map_flags page.linePointers page.tuples pageSize hpage.length_eq
  intro lp hlp
  have hmem : lp.lpFlags ∈ page.linePointers.map LinePointer.lpFlags := by
    rw [← hflags]
    exact List.mem_map_of_mem hlp
  obtain ⟨lp', hlp', heq⟩ := List.mem_map.mp hmem
  rw [← heq]
  exact h lp' hlp'

/-- The page after a tuple was put behind a new line pointer. -/
def appended (page : HeapPage) (tuple : Bytes) : HeapPage where
  header :=
    { page.header with
      pdLower := UInt16.ofNat (page.header.pdLower.toNat + linePointerSize)
      pdUpper := UInt16.ofNat (page.header.pdUpper.toNat - tuple.length) }
  linePointers := page.linePointers ++
    [LinePointer.new (UInt16.ofNat (page.header.pdUpper.toNat - tuple.length))]
  tuples := page.tuples ++ [tuple]

theorem allNormal_appended {page : HeapPage} (h : AllNormal page) (tuple : Bytes) :
    AllNormal (appended page tuple) := by
  intro lp hlp
  rcases List.mem_append.mp hlp with hlp | hlp
  · exact h lp hlp
  · rw [List.mem_singleton.mp hlp]
    rfl

theorem addTuple_overflow {page : HeapPage} {tuple : Bytes}
    (h : page.header.pdUpper.toNat < tuple.length) : page.addTuple tuple = none := by
  have hsub := checkedSub_eq_none.mpr h
  simp [HeapPage.addTuple, hsub]

theorem addTuple_of_normal {page : HeapPage} (hnormal : AllNormal page) {tuple : Bytes}
    (h : tuple.length ≤ page.header.pdUpper.toNat) :
    page.addTuple tuple =
      if page.header.pdUpper.toNat - tuple.length < page.header.pdLower.toNat + linePointerSize
      then some (page, none)
      else some (appended page tuple, some (UInt16.ofNat page.linePointers.length)) := by
  have hsub := checkedSub_eq_some.mpr ⟨h, rfl⟩
  have hdead : page.linePointers.findIdx? (fun lp => decide (lp.lpFlags = lpDead)) = none := by
    rw [List.findIdx?_eq_none_iff]
    intro lp hlp
    rw [hnormal lp hlp]
    decide
  simp only [HeapPage.addTuple, hsub, hdead, Option.map_none, Option.isNone_none, if_true,
    Option.bind_eq_bind, Option.bind_some]
  split
  · rfl
  · rfl

theorem allNormal_new : AllNormal HeapPage.new := by
  intro lp hlp
  simp [HeapPage.new] at hlp

/-- A tuple that leaves room for the header and one line pointer fits on a page
without tuples. -/
theorem addTuple_empty {page : HeapPage} (hnormal : AllNormal page)
    (hlower : page.header.pdLower.toNat = 26) (hupper : page.header.pdUpper.toNat = 8192)
    {tuple : Bytes} (h : tuple.length + 30 ≤ 8192) :
    page.addTuple tuple =
      some (appended page tuple, some (UInt16.ofNat page.linePointers.length)) := by
  rw [addTuple_of_normal hnormal (by omega), if_neg]
  simp only [hlower, hupper, linePointerSize]
  omega

theorem length_le_flatMap {pages : List HeapPage} (h : ∀ page ∈ pages, page.tuples ≠ []) :
    pages.length ≤ (pages.flatMap HeapPage.tuples).length := by
  induction pages with
  | nil => exact Nat.zero_le _
  | cons page pages ih =>
      have hpage := List.length_pos_iff.mpr (h page List.mem_cons_self)
      have htail := ih fun page' hpage' => h page' (List.mem_cons_of_mem _ hpage')
      rw [List.flatMap_cons, List.length_append, List.length_cons]
      omega

end Pages

section PageIds

/-- The id of a relation's page number `i`, counted from 0. -/
def pid (i : Nat) : PageId := ⟨UInt32.ofNat (i + 1)⟩

def pageIds (n : Nat) : List PageId := (List.range n).map pid

theorem pageIds_succ (n : Nat) : pageIds (n + 1) = pageIds n ++ [pid n] := by
  simp [pageIds, List.range_succ]

theorem pid_injective {i j : Nat} (hi : i < 2 ^ 32 - 1) (hj : j < 2 ^ 32 - 1)
    (h : pid i = pid j) : i = j := by
  have hval : (UInt32.ofNat (i + 1)).toNat = (UInt32.ofNat (j + 1)).toNat := by
    rw [PageId.mk.inj h]
  rw [UInt32.toNat_ofNat', UInt32.toNat_ofNat'] at hval
  omega

theorem pid_not_mem_pageIds {n i : Nat} (hn : n ≤ i) (hi : i < 2 ^ 32 - 1) :
    pid i ∉ pageIds n := by
  intro hmem
  obtain ⟨j, hj, heq⟩ := List.mem_map.mp hmem
  have hlt := List.mem_range.mp hj
  have hji : j = i := pid_injective (by omega) hi heq
  omega

theorem nextPageId_pid {i : Nat} (hi : i + 1 < 2 ^ 32 - 1) :
    nextPageId (pid i) = some (pid (i + 1)) := by
  have hne : UInt32.ofNat (i + 1) ≠ 0xFFFFFFFF := by
    intro heq
    have hval := congrArg UInt32.toNat heq
    rw [UInt32.toNat_ofNat'] at hval
    have hmax : (0xFFFFFFFF : UInt32).toNat = 2 ^ 32 - 1 := rfl
    omega
  have hincr : checkedIncr (UInt32.ofNat (i + 1)) = some (UInt32.ofNat (i + 1 + 1)) := by
    rw [checkedIncr, if_neg hne, UInt32.ofNat_add (i + 1) 1]
    rfl
  simp only [nextPageId, pid, hincr, Option.map_some]

variable {σ : Type} [StorageTrait σ] [LawfulStorage σ]

/-- Writing a later page leaves the pages before it as they are. -/
theorem heldAll_write {storage : σ} {n : Nat} {pages : List HeapPage}
    (h : List.Forall₂ (Held storage) (pageIds n) pages) {i : Nat} (hi : n ≤ i)
    (hbound : i < 2 ^ 32 - 1) (data : Bytes) :
    List.Forall₂ (Held (writePage storage (pid i) data).2) (pageIds n) pages := by
  have hnot := pid_not_mem_pageIds hi hbound
  rw [List.forall₂_iff_zip]
  refine ⟨h.length_eq, ?_⟩
  intro p page hmem
  have hheld := (List.forall₂_iff_zip.mp h).2 hmem
  refine hheld.write_of_ne ?_ data
  rintro rfl
  exact hnot (List.of_mem_zip hmem).1

end PageIds

section Inserts

variable [Bincode] {σ : Type} [StorageTrait σ]

/-- A relation filled by inserts: its pages are numbered consecutively, every
slot is normal, and the tuples in page order encode `rows`. -/
structure Filled (db : Database σ) (relOid : Oid) (desc : TupleDesc) (rows : List (List String))
    (pages : List HeapPage) : Prop where
  registered : ∃ rel, db.cache.rels.lookup relOid = some rel ∧ rel.tupleDesc = desc ∧
    rel.pages = pageIds pages.length
  held : List.Forall₂ (Held db.cache.disk.storage) (pageIds pages.length) pages
  normal : ∀ page ∈ pages, AllNormal page
  nonempty : ∀ page ∈ pages, page.tuples ≠ []
  encodes : List.Forall₂ (Encodes desc) (pages.flatMap HeapPage.tuples) rows

theorem Filled.length_le {db : Database σ} {relOid : Oid} {desc : TupleDesc}
    {rows : List (List String)} {pages : List HeapPage} (h : Filled db relOid desc rows pages) :
    pages.length ≤ rows.length := by
  rw [← h.encodes.length_eq]
  exact length_le_flatMap h.nonempty

theorem Filled.pages_eq {db : Database σ} {relOid : Oid} {desc : TupleDesc}
    {rows : List (List String)} {pages : List HeapPage} {rel : Relation}
    (h : Filled db relOid desc rows pages) (hrel : db.cache.rels.lookup relOid = some rel) :
    rel.pages = pageIds pages.length := by
  obtain ⟨rel', hrel', _, hpages⟩ := h.registered
  rw [hrel] at hrel'
  cases hrel'
  exact hpages

/-- The pool does not matter. -/
theorem Filled.of_storage {db db' : Database σ} {relOid : Oid} {desc : TupleDesc}
    {rows : List (List String)} {pages : List HeapPage} (h : Filled db relOid desc rows pages)
    (hrels : db'.cache.rels = db.cache.rels)
    (hstorage : db'.cache.disk.storage = db.cache.disk.storage) :
    Filled db' relOid desc rows pages := by
  refine ⟨?_, ?_, h.normal, h.nonempty, h.encodes⟩
  · rw [hrels]
    exact h.registered
  · rw [hstorage]
    exact h.held

theorem diskRows_encodes {storage : σ} {desc : TupleDesc} {ids : List PageId}
    {pages : List HeapPage} {rows : List (List String)}
    (hheld : List.Forall₂ (Held storage) ids pages) (hnormal : ∀ page ∈ pages, AllNormal page)
    (h : List.Forall₂ (Encodes desc) (pages.flatMap HeapPage.tuples) rows) :
    (diskRows desc maxSnapshot none (ids.zip (pages.map stored))).map Prod.snd = rows := by
  induction hheld generalizing rows with
  | nil =>
      cases h
      rfl
  | @cons p page ids pages hpage _ ih =>
      rw [List.flatMap_cons] at h
      obtain ⟨first, rest, hfirst, hrest, rfl⟩ :
          ∃ first rest, List.Forall₂ (Encodes desc) page.tuples first ∧
            List.Forall₂ (Encodes desc) (pages.flatMap HeapPage.tuples) rest ∧
            rows = first ++ rest := by
        refine ⟨rows.take page.tuples.length, rows.drop page.tuples.length, ?_, ?_, ?_⟩
        · simpa using List.forall₂_take page.tuples.length h
        · simpa using List.forall₂_drop page.tuples.length h
        · exact (List.take_append_drop _ _).symm
      have htuples := stored_tuples hpage.wellFormed (hnormal page List.mem_cons_self)
      have htail := ih (fun page' hpage' => hnormal page' (List.mem_cons_of_mem _ hpage')) hrest
      simp only [diskRows, List.map_cons, List.zip_cons_cons, List.flatMap_cons, List.map_append,
        htuples, pageRows_encodes hfirst] at htail ⊢
      rw [htail]

/-- A scan of a filled relation returns its rows. -/
theorem Filled.slowScan {db : Database σ} {relOid : Oid} {desc : TupleDesc}
    {rows : List (List String)} {pages : List HeapPage} (h : Filled db relOid desc rows pages) :
    ∃ result, HeapAccess.slowScan relOid none db = .ok result db ∧
      result.map Prod.snd = rows := by
  obtain ⟨rel, hrel, hdesc, hpages⟩ := h.registered
  have hlen : (pageIds pages.length).length = (pages.map stored).length := by
    simp [pageIds]
  refine ⟨diskRows desc maxSnapshot none ((pageIds pages.length).zip (pages.map stored)), ?_,
    diskRows_encodes h.held h.normal h.encodes⟩
  rw [← hdesc]
  apply slowScan_ok hrel
  · rw [hpages, List.map_fst_zip (Nat.le_of_eq hlen)]
  · rintro ⟨p, page⟩ hentry
    rw [List.zip_map_right] at hentry
    obtain ⟨⟨q, page'⟩, hmem, heq⟩ := List.mem_map.mp hentry
    cases heq
    have hheld := List.forall₂_iff_zip.mp h.held
    exact (hheld.2 hmem).pageAt

/-- The relation has no page yet, or the new tuple is no longer than `pd_upper`
of its last page. -/
def FitsUpper (db : Database σ) (relOid : Oid) (values : List Bytes) : Prop :=
  ∀ rel p page encoded, db.cache.rels.lookup relOid = some rel → rel.pages.getLast? = some p →
    PageAt db.cache.disk.storage p page →
    serializeTuple (newTuple values db.wal.currentXid) = .ok encoded →
    encoded.length ≤ page.header.pdUpper.toNat

variable [LawfulBincode] [LawfulStorage σ]

omit [StorageTrait σ] [LawfulStorage σ] in
theorem append_insert_ok {wal : WAL} {count : Nat} {tup : Tuple} {encoded : Bytes}
    (relOid : Oid) (p : PageId) (hwal : Ready wal (count + 1))
    (hencoded : serializeTuple tup = .ok encoded) (hsize : encoded.length + 30 ≤ 8192) :
    ∃ lsn wal', append (.insert relOid p tup) { wal with currentXid := wal.currentXid + 1 } =
        .ok lsn wal' ∧ Ready wal' count ∧ wal'.currentXid = wal.currentXid + 1 := by
  obtain ⟨record, hrecord, hlen⟩ := LawfulBincode.serialize_insert relOid p hencoded
  have hready : Ready { wal with currentXid := wal.currentXid + 1 } (count + 1) :=
    ⟨hwal.segment_pos, hwal.page_length, hwal.lsn_lt⟩
  exact append_ok hready hrecord (by omega)

omit [StorageTrait σ] [LawfulStorage σ] in
theorem encodes_newTuple {desc : TupleDesc} {values : List String} {xid : UInt64}
    {encoded : Bytes} (hnul : NulFree values) (hpos : 0 < xid.toNat)
    (hlt : xid.toNat < 2 ^ 32 - 1)
    (hencoded : serializeTuple (newTuple (values.map asBytes) xid) = .ok encoded) :
    Encodes desc encoded (fitRow desc.fields.length values) :=
  ⟨_, LawfulBincode.deserialize_serialize hencoded, isVisible_newTuple hpos hlt,
    decodeTupleValues_newTuple desc values hnul xid⟩

section Step

variable {db : Database σ} {relOid : Oid} {desc : TupleDesc} {rows : List (List String)}
  {row : List String} {values : List Bytes} {encoded : Bytes} {count : Nat}

omit [Bincode] [LawfulBincode] in
/-- A relation without pages is opened with an empty page. -/
theorem held_firstPage {rel : Relation} (hempty : rel.pages = []) (storage : σ) :
    openPage rel = ⟨1⟩ ∧ openPages rel = [⟨1⟩] ∧
      Held (openStorage storage rel) (openPage rel) HeapPage.new := by
  have hlast : rel.pages.getLast? = none := by rw [hempty]; rfl
  have hopenPage : openPage rel = ⟨1⟩ := by simp [openPage, hlast]
  have hopen : openStorage storage rel = (writePage storage ⟨1⟩ (image HeapPage.new)).2 := by
    simp [openStorage, hlast]
  refine ⟨hopenPage, by simp [openPages, hlast], ?_⟩
  rw [hopen, hopenPage]
  exact held_write _ _ wellFormed_new

omit [StorageTrait σ] [LawfulStorage σ] in
/-- An empty page has room for a tuple that fits a page of its own. -/
theorem addTuple_firstPage
    (hencoded : serializeTuple (newTuple values db.wal.currentXid) = .ok encoded)
    (hsize : encoded.length + 30 ≤ 8192) :
    (stored HeapPage.new).addTuple encoded =
        some (appended (stored HeapPage.new) encoded, some 0) ∧
      WellFormed (appended (stored HeapPage.new) encoded) := by
  have hupper : (stored HeapPage.new).header.pdUpper.toNat = 8192 := by decide
  have hlower : (stored HeapPage.new).header.pdLower.toNat = 26 := by decide
  constructor
  · exact addTuple_empty (allNormal_stored wellFormed_new allNormal_new) hlower hupper hsize
  · exact wellFormed_append (wellFormed_stored wellFormed_new) (serializeTuple_ne_nil hencoded)
      (by omega) (by simp only [hlower, hupper, linePointerSize]; omega)

/-- The first insert creates page 1. -/
theorem filled_insert_first (h : Filled db relOid desc rows [])
    (hencoded : serializeTuple (newTuple values db.wal.currentXid) = .ok encoded)
    (hsize : encoded.length + 30 ≤ 8192) (hrow : Encodes desc encoded row)
    (hwal : Ready db.wal (count + 1)) :
    ∃ db', tupleInsert relOid values db = .ok () db' ∧
      Filled db' relOid desc (rows ++ [row]) [appended (stored HeapPage.new) encoded] ∧
      Ready db'.wal count ∧ db'.wal.currentXid = db.wal.currentXid + 1 := by
  obtain ⟨rel, hrel, hdesc, hpages⟩ := h.registered
  obtain ⟨hopenPage, hopenPages, hheld⟩ := held_firstPage hpages db.cache.disk.storage
  obtain ⟨hadd, hwell⟩ := addTuple_firstPage hencoded hsize
  have hnormal := allNormal_stored wellFormed_new allNormal_new
  obtain ⟨lsn, wal', happend, hready, hxid⟩ :=
    append_insert_ok relOid (openPage rel) hwal hencoded hsize
  have hrows : rows = [] := List.forall₂_nil_left_iff.mp h.encodes
  refine ⟨_,
    tupleInsert_added hrel hheld.pageAt hencoded hadd (serialize_eq_image hwell) happend,
    ⟨⟨_, AList.lookup_insert _, hdesc, hopenPages⟩, ?_, ?_, ?_, ?_⟩, hready, hxid⟩
  · refine List.Forall₂.cons ?_ List.Forall₂.nil
    have hwritten := held_write (openStorage db.cache.disk.storage rel) (openPage rel) hwell
    rw [hopenPage] at hwritten ⊢
    exact hwritten
  · intro page hpage
    rw [List.mem_singleton.mp hpage]
    exact allNormal_appended hnormal encoded
  · intro page hpage
    rw [List.mem_singleton.mp hpage]
    simp [appended]
  · rw [hrows]
    exact List.Forall₂.cons hrow List.Forall₂.nil

/-- The last page of a filled relation, as inserts find it. -/
structure LastPage (db : Database σ) (relOid : Oid) (desc : TupleDesc) (pages : List HeapPage)
    (page : HeapPage) (rel : Relation) : Prop where
  rel_eq : db.cache.rels.lookup relOid = some rel
  desc_eq : rel.tupleDesc = desc
  last_eq : rel.pages.getLast? = some (pid pages.length)
  pages_eq : openPages rel = pageIds (pages.length + 1)
  page_eq : openPage rel = pid pages.length
  storage_eq : openStorage db.cache.disk.storage rel = db.cache.disk.storage
  held : Held db.cache.disk.storage (pid pages.length) page
  before : List.Forall₂ (Held db.cache.disk.storage) (pageIds pages.length) pages

omit [LawfulBincode] [LawfulStorage σ] in
theorem Filled.lastPage {pages : List HeapPage} {page : HeapPage}
    (h : Filled db relOid desc rows (pages ++ [page])) :
    ∃ rel, LastPage db relOid desc pages page rel := by
  obtain ⟨rel, hrel, hdesc, hpages⟩ := h.registered
  have hlen : (pages ++ [page]).length = pages.length + 1 := by simp
  rw [hlen] at hpages
  have hlast : rel.pages.getLast? = some (pid pages.length) := by
    rw [hpages, pageIds_succ, List.getLast?_append]
    rfl
  have hheld := h.held
  rw [hlen, pageIds_succ] at hheld
  have hsplit := List.forall₂_take pages.length hheld
  have hrest := List.forall₂_drop pages.length hheld
  have hids : (pageIds pages.length).length = pages.length := by simp [pageIds]
  rw [List.take_left, List.take_left' hids] at hsplit
  rw [List.drop_left, List.drop_left' hids] at hrest
  refine ⟨rel, hrel, hdesc, hlast, ?_, ?_, ?_, ?_, hsplit⟩
  · rw [openPages, hlast]
    exact hpages
  · simp [openPage, hlast]
  · simp [openStorage, hlast]
  · cases hrest with
    | cons hpage _ => exact hpage

omit [Bincode] [LawfulBincode] [LawfulStorage σ] in
theorem LastPage.pageAt {pages : List HeapPage} {page : HeapPage} {rel : Relation}
    (h : LastPage db relOid desc pages page rel) :
    PageAt (openStorage db.cache.disk.storage rel) (openPage rel) (stored page) := by
  rw [h.storage_eq, h.page_eq]
  exact h.held.pageAt

omit [LawfulBincode] [StorageTrait σ] [LawfulStorage σ] in
/-- One more row behind those of the pages. -/
theorem encodes_snoc {pages : List HeapPage} {page : HeapPage}
    (h : List.Forall₂ (Encodes desc) ((pages ++ [page]).flatMap HeapPage.tuples) rows)
    (hrow : Encodes desc encoded row) :
    List.Forall₂ (Encodes desc)
      (pages.flatMap HeapPage.tuples ++ (page.tuples ++ [encoded])) (rows ++ [row]) := by
  rw [List.flatMap_append, List.flatMap_singleton] at h
  rw [← List.append_assoc]
  exact List.rel_append h (List.Forall₂.cons hrow List.Forall₂.nil)

section NextPage

variable {pages : List HeapPage} {page : HeapPage}

/-- An insert into a page that has room for the line pointer and the tuple. -/
theorem filled_insert_room (h : Filled db relOid desc rows (pages ++ [page]))
    (hencoded : serializeTuple (newTuple values db.wal.currentXid) = .ok encoded)
    (hsize : encoded.length + 30 ≤ 8192) (hrow : Encodes desc encoded row)
    (hle : encoded.length ≤ (stored page).header.pdUpper.toNat)
    (hroom : (stored page).header.pdLower.toNat + linePointerSize ≤
      (stored page).header.pdUpper.toNat - encoded.length)
    (hrows : rows.length < 2 ^ 32 - 1) (hwal : Ready db.wal (count + 1)) :
    ∃ db', tupleInsert relOid values db = .ok () db' ∧
      Filled db' relOid desc (rows ++ [row]) (pages ++ [appended (stored page) encoded]) ∧
      Ready db'.wal count ∧ db'.wal.currentXid = db.wal.currentXid + 1 := by
  obtain ⟨rel, hlast⟩ := h.lastPage
  have hbound : pages.length + 1 ≤ rows.length := by simpa using h.length_le
  have hpageNormal := h.normal page (by simp)
  have hnormal := allNormal_stored hlast.held.wellFormed hpageNormal
  have hwellStored := wellFormed_stored hlast.held.wellFormed
  have htuples := stored_tuples hlast.held.wellFormed hpageNormal
  have hadd := addTuple_of_normal hnormal hle
  rw [if_neg (Nat.not_lt.mpr hroom)] at hadd
  have hwell : WellFormed (appended (stored page) encoded) :=
    wellFormed_append hwellStored (serializeTuple_ne_nil hencoded) hle hroom
  obtain ⟨lsn, wal', happend, hready, hxid⟩ :=
    append_insert_ok relOid (openPage rel) hwal hencoded hsize
  have hlen : (pages ++ [appended (stored page) encoded]).length = pages.length + 1 := by simp
  refine ⟨_,
    tupleInsert_added hlast.rel_eq hlast.pageAt hencoded hadd (serialize_eq_image hwell) happend,
    ⟨⟨_, AList.lookup_insert _, hlast.desc_eq, ?_⟩, ?_, ?_, ?_, ?_⟩, hready, hxid⟩
  · rw [hlen]
    exact hlast.pages_eq
  · rw [hlen, pageIds_succ]
    simp only [hlast.storage_eq, hlast.page_eq, withStorage]
    refine List.rel_append ?_ (List.Forall₂.cons ?_ List.Forall₂.nil)
    · exact heldAll_write hlast.before (Nat.le_refl _) (by omega) _
    · exact held_write _ _ hwell
  · intro page' hpage'
    rcases List.mem_append.mp hpage' with hpage' | hpage'
    · exact h.normal page' (List.mem_append_left _ hpage')
    · rw [List.mem_singleton.mp hpage']
      exact allNormal_appended hnormal encoded
  · intro page' hpage'
    rcases List.mem_append.mp hpage' with hpage' | hpage'
    · exact h.nonempty page' (List.mem_append_left _ hpage')
    · rw [List.mem_singleton.mp hpage']
      simp [appended]
  · simp only [List.flatMap_append, List.flatMap_singleton, appended, htuples]
    exact encodes_snoc h.encodes hrow

/-- An insert into a full page: it is written back as it was, and a new page
follows it. -/
theorem filled_insert_full (h : Filled db relOid desc rows (pages ++ [page]))
    (hencoded : serializeTuple (newTuple values db.wal.currentXid) = .ok encoded)
    (hsize : encoded.length + 30 ≤ 8192) (hrow : Encodes desc encoded row)
    (hle : encoded.length ≤ (stored page).header.pdUpper.toNat)
    (hfull : (stored page).header.pdUpper.toNat - encoded.length <
      (stored page).header.pdLower.toNat + linePointerSize)
    (hrows : rows.length + 1 < 2 ^ 32 - 1) (hwal : Ready db.wal (count + 1)) :
    ∃ db', tupleInsert relOid values db = .ok () db' ∧
      Filled db' relOid desc (rows ++ [row])
        (pages ++ [stored page, appended HeapPage.new encoded]) ∧
      Ready db'.wal count ∧ db'.wal.currentXid = db.wal.currentXid + 1 := by
  obtain ⟨rel, hlast⟩ := h.lastPage
  have hbound : pages.length + 1 ≤ rows.length := by simpa using h.length_le
  have hpageNormal := h.normal page (by simp)
  have hnormal := allNormal_stored hlast.held.wellFormed hpageNormal
  have hwellStored := wellFormed_stored hlast.held.wellFormed
  have htuples := stored_tuples hlast.held.wellFormed hpageNormal
  have hadd := addTuple_of_normal hnormal hle
  rw [if_pos hfull] at hadd
  have hnewUpper : HeapPage.new.header.pdUpper.toNat = 8192 := by decide
  have hnewLower : HeapPage.new.header.pdLower.toNat = 26 := by decide
  have hnew := addTuple_empty allNormal_new hnewLower hnewUpper hsize
  have hwell : WellFormed (appended HeapPage.new encoded) :=
    wellFormed_append wellFormed_new (serializeTuple_ne_nil hencoded) (by omega)
      (by simp only [hnewLower, hnewUpper, linePointerSize]; omega)
  have hnext : nextPageId (openPage rel) = some (pid (pages.length + 1)) := by
    rw [hlast.page_eq]
    exact nextPageId_pid (by omega)
  have hpid : pid (pages.length + 1) ≠ pid pages.length := by
    intro heq
    have := pid_injective (by omega) (by omega) heq
    omega
  obtain ⟨lsn, wal', happend, hready, hxid⟩ :=
    append_insert_ok relOid (pid (pages.length + 1)) hwal hencoded hsize
  have hlen : (pages ++ [stored page, appended HeapPage.new encoded]).length =
      pages.length + 1 + 1 := by simp
  refine ⟨_,
    tupleInsert_extended hlast.rel_eq hlast.pageAt hencoded hadd hnext hnew
      (serialize_eq_image hwell) (serialize_eq_image hwellStored) happend,
    ⟨⟨_, AList.lookup_insert _, hlast.desc_eq, ?_⟩, ?_, ?_, ?_, ?_⟩, hready, hxid⟩
  · rw [hlen, hlast.pages_eq, ← pageIds_succ]
  · rw [hlen, pageIds_succ, pageIds_succ, List.append_assoc]
    simp only [hlast.storage_eq, hlast.page_eq, withStorage]
    refine List.rel_append ?_ (List.Forall₂.cons ?_ (List.Forall₂.cons ?_ List.Forall₂.nil))
    · exact heldAll_write (heldAll_write hlast.before (Nat.le_succ _) (by omega) _)
        (Nat.le_refl _) (by omega) _
    · exact held_write _ _ hwellStored
    · exact (held_write _ _ hwell).write_of_ne hpid _
  · intro page' hpage'
    simp only [List.mem_append, List.mem_cons, List.not_mem_nil, or_false] at hpage'
    rcases hpage' with hpage' | rfl | rfl
    · exact h.normal page' (List.mem_append_left _ hpage')
    · exact hnormal
    · exact allNormal_appended allNormal_new encoded
  · intro page' hpage'
    simp only [List.mem_append, List.mem_cons, List.not_mem_nil, or_false] at hpage'
    rcases hpage' with hpage' | rfl | rfl
    · exact h.nonempty page' (List.mem_append_left _ hpage')
    · rw [htuples]
      exact h.nonempty page (by simp)
    · simp [appended]
  · simp only [List.flatMap_append, List.flatMap_cons, List.flatMap_nil, List.append_nil, htuples]
    exact encodes_snoc h.encodes hrow

/-- An insert whose tuple is no longer than `pd_upper` of the last page. -/
theorem filled_insert_next (h : Filled db relOid desc rows (pages ++ [page]))
    (hencoded : serializeTuple (newTuple values db.wal.currentXid) = .ok encoded)
    (hsize : encoded.length + 30 ≤ 8192) (hrow : Encodes desc encoded row)
    (hupper : FitsUpper db relOid values) (hrows : rows.length + 1 < 2 ^ 32 - 1)
    (hwal : Ready db.wal (count + 1)) :
    ∃ db' pages', tupleInsert relOid values db = .ok () db' ∧
      Filled db' relOid desc (rows ++ [row]) pages' ∧ Ready db'.wal count ∧
      db'.wal.currentXid = db.wal.currentXid + 1 := by
  obtain ⟨rel, hlast⟩ := h.lastPage
  have hle := hupper rel (pid pages.length) (stored page) encoded hlast.rel_eq hlast.last_eq
    hlast.held.pageAt hencoded
  by_cases hroom : (stored page).header.pdUpper.toNat - encoded.length <
      (stored page).header.pdLower.toNat + linePointerSize
  · obtain ⟨db', hinsert, hfilled, hready, hxid⟩ :=
      filled_insert_full h hencoded hsize hrow hle hroom hrows hwal
    exact ⟨db', _, hinsert, hfilled, hready, hxid⟩
  · obtain ⟨db', hinsert, hfilled, hready, hxid⟩ :=
      filled_insert_room h hencoded hsize hrow hle (by omega) (by omega) hwal
    exact ⟨db', _, hinsert, hfilled, hready, hxid⟩

end NextPage

omit [LawfulBincode] in
/-- An insert whose tuple is longer than `pd_upper` of the last page panics. -/
theorem insert_panics (h : ¬FitsUpper db relOid values) :
    tupleInsert relOid values db = .panic := by
  simp only [FitsUpper, not_forall, Nat.not_le] at h
  obtain ⟨rel, p, page, encoded, hrel, hlast, hpage, hencoded, hlt⟩ := h
  have hopen : openStorage db.cache.disk.storage rel = db.cache.disk.storage := by
    simp [openStorage, hlast]
  have hopenPage : openPage rel = p := by simp [openPage, hlast]
  refine tupleInsert_panic hrel ?_ hencoded (addTuple_overflow hlt)
  rw [hopen, hopenPage]
  exact hpage

theorem filled_insert {pages : List HeapPage} (h : Filled db relOid desc rows pages)
    (hencoded : serializeTuple (newTuple values db.wal.currentXid) = .ok encoded)
    (hsize : encoded.length + 30 ≤ 8192) (hrow : Encodes desc encoded row)
    (hupper : FitsUpper db relOid values) (hrows : rows.length + 1 < 2 ^ 32 - 1)
    (hwal : Ready db.wal (count + 1)) :
    ∃ db' pages', tupleInsert relOid values db = .ok () db' ∧
      Filled db' relOid desc (rows ++ [row]) pages' ∧ Ready db'.wal count ∧
      db'.wal.currentXid = db.wal.currentXid + 1 := by
  rcases List.eq_nil_or_concat pages with rfl | ⟨before, page, rfl⟩
  · obtain ⟨db', hinsert, hfilled, hready, hxid⟩ :=
      filled_insert_first h hencoded hsize hrow hwal
    exact ⟨db', _, hinsert, hfilled, hready, hxid⟩
  · rw [List.concat_eq_append] at h
    exact filled_insert_next h hencoded hsize hrow hupper hrows hwal

end Step

def insertAll (relOid : Oid) : List (List Bytes) → Proc (Database σ) Unit
  | [] => pure ()
  | values :: rest => do
      tupleInsert relOid values
      insertAll relOid rest

/-- Every insert of the sequence finds its tuple no longer than `pd_upper` of the
page that is last when its turn comes. -/
def EachFits (relOid : Oid) : List (List Bytes) → Database σ → Prop
  | [], _ => True
  | values :: rest, db =>
      FitsUpper db relOid values ∧
        ∀ db', tupleInsert relOid values db = .ok () db' → EachFits relOid rest db'

/-- The encoding of every row, whatever its stamp, fits on an empty page. -/
def FitsEmptyPage (row : List String) : Prop :=
  ∀ xid : UInt64, ∃ encoded, serializeTuple (newTuple (row.map asBytes) xid) = .ok encoded ∧
    encoded.length + 30 ≤ 8192

def asValues (rows : List (List String)) : List (List Bytes) := rows.map fun row => row.map asBytes

omit [LawfulBincode] [LawfulStorage σ] in
theorem insertAll_cons (relOid : Oid) (row : List String) (rows : List (List String))
    (db : Database σ) :
    insertAll relOid (asValues (row :: rows)) db =
      (tupleInsert relOid (row.map asBytes) >>= fun _ => insertAll relOid (asValues rows)) db :=
  rfl

theorem insertAll_iff (relOid : Oid) (desc : TupleDesc) (rows : List (List String))
    (hnul : ∀ row ∈ rows, NulFree row) (hfits : ∀ row ∈ rows, FitsEmptyPage row)
    (db : Database σ) (done : List (List String)) (pages : List HeapPage)
    (h : Filled db relOid desc done pages) (hxid : 0 < db.wal.currentXid.toNat)
    (hxids : db.wal.currentXid.toNat + rows.length ≤ 2 ^ 32 - 1)
    (hdone : done.length < db.wal.currentXid.toNat) (hwal : Ready db.wal rows.length) :
    (∃ db' result, insertAll relOid (asValues rows) db = .ok () db' ∧
        slowScan relOid none db' = .ok result db' ∧
        result.map Prod.snd = done ++ rows.map (fitRow desc.fields.length)) ↔
      EachFits relOid (asValues rows) db := by
  induction rows generalizing db done pages with
  | nil =>
      obtain ⟨result, hscan, hresult⟩ := h.slowScan
      refine iff_of_true ⟨db, result, rfl, hscan, ?_⟩ trivial
      simpa using hresult
  | cons row rows ih =>
      have hcount : (row :: rows).length = rows.length + 1 := rfl
      rw [hcount] at hxids hwal
      obtain ⟨encoded, hencoded, hsize⟩ := hfits row List.mem_cons_self db.wal.currentXid
      have hrow : Encodes desc encoded (fitRow desc.fields.length row) :=
        encodes_newTuple (hnul row List.mem_cons_self) hxid (by omega) hencoded
      by_cases hupper : FitsUpper db relOid (row.map asBytes)
      · obtain ⟨db₁, pages₁, hinsert, hfilled, hready, hnext⟩ :=
          filled_insert h hencoded hsize hrow hupper (by omega) hwal
        have hnextNat : db₁.wal.currentXid.toNat = db.wal.currentXid.toNat + 1 := by
          rw [hnext, UInt64.toNat_add, UInt64.toNat_one]
          exact Nat.mod_eq_of_lt (by omega)
        have hiff := ih (fun r hr => hnul r (List.mem_cons_of_mem _ hr))
          (fun r hr => hfits r (List.mem_cons_of_mem _ hr)) db₁ _ pages₁ hfilled (by omega)
          (by omega) (by rw [List.length_append, List.length_singleton]; omega) hready
        have hexec : insertAll relOid (asValues (row :: rows)) db =
            insertAll relOid (asValues rows) db₁ := by
          rw [insertAll_cons, bind_ok hinsert]
        have heach : EachFits relOid (asValues (row :: rows)) db ↔
            EachFits relOid (asValues rows) db₁ := by
          constructor
          · rintro ⟨_, hrest⟩
            exact hrest db₁ hinsert
          · intro hrest
            refine ⟨hupper, ?_⟩
            intro db' hdb'
            rw [hinsert] at hdb'
            cases hdb'
            exact hrest
        rw [hexec, heach, ← hiff]
        simp only [List.map_cons, List.append_assoc, List.singleton_append]
      · refine iff_of_false ?_ fun heach => hupper heach.1
        rintro ⟨db', result, hexec, _⟩
        rw [insertAll_cons, bind_panic (insert_panics hupper)] at hexec
        cases hexec

/-- A sequence of inserts into a fresh relation goes through and a scan returns
exactly its rows, in order, if and only if each tuple is no longer than
`pd_upper` of the page that is last at its turn. -/
theorem inserts_complete_iff {db : Database σ} {relOid : Oid} {rel : Relation}
    (hrel : db.cache.rels.lookup relOid = some rel) (hempty : rel.pages = [])
    (rows : List (List String)) (hnul : ∀ row ∈ rows, NulFree row)
    (hfits : ∀ row ∈ rows, FitsEmptyPage row) (hxid : 0 < db.wal.currentXid.toNat)
    (hxids : db.wal.currentXid.toNat + rows.length ≤ 2 ^ 32 - 1)
    (hwal : Ready db.wal rows.length) :
    (∃ db' result, insertAll relOid (asValues rows) db = .ok () db' ∧
        slowScan relOid none db' = .ok result db' ∧
        result.map Prod.snd = rows.map (fitRow rel.tupleDesc.fields.length)) ↔
      EachFits relOid (asValues rows) db := by
  have hfilled : Filled db relOid rel.tupleDesc [] [] :=
    ⟨⟨rel, hrel, rfl, hempty⟩, List.Forall₂.nil, by simp, by simp, List.Forall₂.nil⟩
  exact insertAll_iff relOid rel.tupleDesc rows hnul hfits db [] [] hfilled hxid hxids hxid hwal

end Inserts

section FreshTables

def textColumn : TupleDesc where
  fields := [{ name := "v", typeOid := ⟨25⟩, attnum := 1, typmod := -1 }]

/-- A table of one text column without pages. -/
def emptyTable : Relation where
  relOid := ⟨1⟩
  name := "t"
  tupleDesc := textColumn
  pages := []

/-- An empty in-memory store with the given tables, and the server's WAL. -/
def freshDatabase (rels : List Relation) : Database EphemeralStorage where
  cache := rels.foldl registerRelation (SharedBufferCache.new EphemeralStorage.new)
  wal := WAL.new 8192

theorem serialize_oneValue {value : String} (h : (asBytes value).length ≤ 8112) (xid : UInt64) :
    ∃ encoded, serializeTuple (newTuple ([value].map asBytes) xid) = .ok encoded ∧
      encoded.length = 50 + (asBytes value).length := by
  have hdata : (newTuple ([value].map asBytes) xid).data = asBytes value := by
    simp [newTuple]
  have hslots : (newTuple ([value].map asBytes) xid).slots.length = 1 := by
    simp [newTuple]
  have hencodable : Encodable (newTuple ([value].map asBytes) xid) := by
    refine ⟨?_, ?_⟩
    · rw [hslots]
      decide
    · rw [hdata]
      omega
  refine ⟨encodeTuple (newTuple ([value].map asBytes) xid), if_pos hencodable, ?_⟩
  rw [encodeTuple_length, hdata, hslots]

theorem fitsEmptyPage_of_length {value : String} (h : (asBytes value).length ≤ 8112) :
    FitsEmptyPage [value] := by
  intro xid
  obtain ⟨encoded, hencoded, hlen⟩ := serialize_oneValue h xid
  exact ⟨encoded, hencoded, by omega⟩

theorem filled_freshDatabase : Filled (freshDatabase [emptyTable]) ⟨1⟩ textColumn [] [] :=
  ⟨⟨emptyTable, rfl, rfl, rfl⟩, List.Forall₂.nil, by simp, by simp, List.Forall₂.nil⟩

theorem inserts_complete_iff_oneRow :
    ∃ db' result, insertAll ⟨1⟩ (asValues [["a"]]) (freshDatabase [emptyTable]) = .ok () db' ∧
      slowScan ⟨1⟩ none db' = .ok result db' ∧ result.map Prod.snd = [["a"]] := by
  have hbytes : asBytes "a" = [97] := asBytes_replicate 1 'a' 97 (by decide)
  have hrel : (freshDatabase [emptyTable]).cache.rels.lookup ⟨1⟩ = some emptyTable := rfl
  refine (inserts_complete_iff hrel rfl [["a"]] ?_ ?_ (by decide) (by decide)
    (ready_new (by decide) (by decide))).mpr ⟨?_, fun _ _ => trivial⟩
  · intro row hrow value hvalue
    rw [List.mem_singleton.mp hrow] at hvalue
    rw [List.mem_singleton.mp hvalue, hbytes]
    decide
  · intro row hrow
    rw [List.mem_singleton.mp hrow]
    exact fitsEmptyPage_of_length (by rw [hbytes]; decide)
  · intro rel p page encoded hrel hlast
    cases hrel
    cases hlast

/-- What `pd_upper` is after a first tuple. -/
theorem stored_appended_upper (encoded : Bytes) :
    (stored (appended (stored HeapPage.new) encoded)).header.pdUpper.toNat =
      8192 - encoded.length := by
  change (UInt16.ofNat (pageSize - (encoded.length + 0))).toNat = _
  exact toNat_ofNat_of_le _ (Nat.sub_le _ _)

/-- Two equal rows of which one page holds only one: the second insert panics. -/
theorem second_insert_panics {value : String} (hnul : NulFree [value])
    (hlen : (asBytes value).length ≤ 8112) (hlong : 8092 < 2 * (asBytes value).length) :
    insertAll ⟨1⟩ (asValues [[value], [value]]) (freshDatabase [emptyTable]) = .panic := by
  obtain ⟨encoded, hencoded, hsize⟩ :=
    serialize_oneValue hlen (freshDatabase [emptyTable]).wal.currentXid
  have hrow : Encodes textColumn encoded (fitRow 1 [value]) :=
    encodes_newTuple hnul (by decide) (by decide) hencoded
  have hwal : Ready (freshDatabase [emptyTable]).wal (0 + 1) := ready_new (by decide) (by decide)
  obtain ⟨db, hinsert, hfilled, _, _⟩ :=
    filled_insert_first filled_freshDatabase hencoded (by omega) hrow hwal
  have hnot : ¬FitsUpper db ⟨1⟩ ([value].map asBytes) := by
    intro h
    obtain ⟨rel, hrel, _, hpages⟩ := hfilled.registered
    obtain ⟨encoded', hencoded', hsize'⟩ := serialize_oneValue hlen db.wal.currentXid
    have hlast : rel.pages.getLast? = some (pid 0) := by rw [hpages]; rfl
    have hheld : Held db.cache.disk.storage (pid 0) (appended (stored HeapPage.new) encoded) := by
      cases hfilled.held with
      | cons hpage _ => exact hpage
    have hupper := h rel (pid 0) _ encoded' hrel hlast hheld.pageAt hencoded'
    have hfree := stored_appended_upper encoded
    omega
  rw [insertAll_cons, bind_ok hinsert, insertAll_cons, bind_panic (insert_panics hnot)]

/-- A value of 5000 bytes. -/
def longValue : String := String.ofList (List.replicate 5000 'x')

theorem second_long_row_panics :
    NulFree [longValue] ∧ FitsEmptyPage [longValue] ∧
      insertAll ⟨1⟩ (asValues [[longValue], [longValue]]) (freshDatabase [emptyTable]) =
        .panic := by
  have hbytes : asBytes longValue = List.replicate 5000 120 :=
    asBytes_replicate 5000 'x' 120 (by decide)
  have hlen : (asBytes longValue).length = 5000 := by
    rw [hbytes, List.length_replicate]
  have hnul : NulFree [longValue] := by
    intro value hvalue
    rw [List.mem_singleton.mp hvalue, hbytes, List.mem_replicate]
    decide
  exact ⟨hnul, fitsEmptyPage_of_length (by omega), second_insert_panics hnul (by omega) (by omega)⟩

end FreshTables

end PostgressRs.Executor.InsertComplete
