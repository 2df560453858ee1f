import PostgressRs.Executor.HeapInvariant
import PostgressRs.Executor.WriteAheadRule
import PostgressRs.Wal.LogIntegrity

/-!
Whether the WAL records of inserts, updates and deletes fit into the segments of
the server's log (`WAL::new(8192)` in `src/server.rs`).
-/

namespace PostgressRs.Executor.RecordSizes

open PostgressRs.BufferCache.PagePool
open PostgressRs.BufferCache.SharedCache
open PostgressRs.Executor.HeapAccess
open PostgressRs.Executor.HeapContents
open PostgressRs.Executor.HeapInvariant
open PostgressRs.Executor.HeapPrograms
open PostgressRs.Executor.HeapSteps
open PostgressRs.Executor.InsertComplete
open PostgressRs.Executor.WriteAheadRule
open PostgressRs.Lib.ByteBuffer
open PostgressRs.Lib.Effects
open PostgressRs.Lib.Effects.Program
open PostgressRs.Lib.Procedure hiding ofExcept orPanic
open PostgressRs.Lib.Transitions
open PostgressRs.Lib.Utf8
open PostgressRs.Storage.PageContents
open PostgressRs.Storage.PageRoundTrip
open PostgressRs.Storage.PageStore
open PostgressRs.Storage.SlottedPage
open PostgressRs.Types
open PostgressRs.Wal.LogIntegrity
open PostgressRs.Wal.LogRecord
open PostgressRs.Wal.WriteAheadLog

section Log

/-- The log that the server creates, and what becomes of it: all its pages are as
long as a segment. -/
structure Segmented (wal : WAL) : Prop where
  segmentSize_eq : wal.segmentSize.toNat = 8192
  page_length : ∀ p data, readPage wal.storage p = .ok data → data.length = 8192

theorem segmented_new : Segmented (WAL.new 8192) := by
  refine ⟨rfl, ?_⟩
  intro p data hread
  rw [EphemeralStorage.readPage_eq] at hread
  cases hread
  exact zeroPage_length

variable [Bincode]

/-- The record is no longer than a segment. -/
def RecordFits (record : WALRecord) : Prop :=
  ∃ data, serializeRecord record = .ok data ∧ data.length ≤ 8192

/-- The record is no longer than a segment of the log, and is appended; LSNs do
not come near the end of their range. -/
def AppendsRecord (wal : WAL) (record : WALRecord) : Prop :=
  ∃ data, serializeRecord record = .ok data ∧ data.length ≤ wal.segmentSize.toNat ∧
    (wal.currentLsn + 16384 < 2 ^ 63 → ∃ lsn wal', append record wal = .ok lsn wal')

theorem appendsRecord_of_fits {wal : WAL} {record : WALRecord} (h : Segmented wal)
    (hfits : RecordFits record) : AppendsRecord wal record := by
  obtain ⟨data, hdata, hlen⟩ := hfits
  refine ⟨data, hdata, by rw [h.segmentSize_eq]; exact hlen, ?_⟩
  intro hlsn
  have hready : Ready wal (0 + 1) :=
    ⟨by rw [h.segmentSize_eq]; omega, fun p page hread => (h.page_length p page hread).ge,
      by omega⟩
  obtain ⟨lsn, wal', happend, -⟩ := append_ok hready hdata hlen
  exact ⟨lsn, wal', happend⟩

omit [Bincode] in
theorem writeRecord_not_err {current : Nat} {data : Bytes} {wal wal' : WAL} {e : String} :
    writeRecord current data wal ≠ .err e wal' := by
  intro h
  unfold writeRecord at h
  rw [bind_ok (read_apply _ _)] at h
  rcases bind_eq_err.mp h with herr | ⟨segment, wal₁, -, h⟩
  · exact orPanic_not_err herr
  rcases bind_eq_err.mp h with herr | ⟨page, wal₂, -, h⟩
  · rw [EphemeralStorage.readPage_eq] at herr
    cases herr
  rcases bind_eq_err.mp h with herr | ⟨page', wal₃, -, h⟩
  · exact orPanic_not_err herr
  rw [EphemeralStorage.writePage_eq] at h
  cases h

/-- A call of `append` fails on a record without an encoding only, and has not
touched the log. -/
theorem append_err {record : WALRecord} {wal wal' : WAL} {e : String}
    (h : append record wal = .err e wal') :
    wal' = wal ∧ ∃ e', serializeRecord record = .error e' := by
  rcases bind_eq_err.mp h with herr | ⟨data, wal₁, hser, h⟩
  · refine ⟨ofExcept_eq_err herr, ?_⟩
    cases hdata : serializeRecord record with
    | ok data =>
        rw [hdata] at herr
        cases herr
    | error e' => exact ⟨e', rfl⟩
  obtain ⟨-, rfl⟩ := ofExcept_eq_ok.mp hser
  rw [bind_ok (read_apply _ _)] at h
  simp only [id_eq] at h
  split at h
  · cases h
  rcases bind_eq_err.mp h with herr | ⟨current, wal₂, -, h⟩
  · exact absurd herr orPanic_not_err
  rcases bind_eq_err.mp h with herr | ⟨lsn, wal₃, -, h⟩
  · exact absurd herr orPanic_not_err
  rw [bind_ok (modify_apply _ _)] at h
  rcases bind_eq_err.mp h with herr | ⟨_, wal₄, -, h⟩
  · exact absurd herr writeRecord_not_err
  · cases h

theorem segmented_append {record : WALRecord} {wal wal' : WAL} (h : Segmented wal)
    (happend : (append record wal).state? = some wal') : Segmented wal' := by
  cases houtcome : append record wal with
  | ok lsn wal₁ =>
      rw [houtcome] at happend
      cases happend
      obtain ⟨data, page, page', -, -, -, -, hread, hcopy, rfl⟩ := append_cases houtcome
      refine ⟨h.segmentSize_eq, ?_⟩
      intro p data' hdata'
      by_cases hp : p = segmentPage wal.segmentSize.toNat lsn
      · subst hp
        have hpage := h.page_length _ page hread
        have hlen := copyFromSlice_length hcopy
        rw [growTo_length, h.segmentSize_eq, hpage] at hlen
        have hself := LawfulStorage.read_write_self wal.storage
          (segmentPage wal.segmentSize.toNat lsn) page'
        simp only [logged] at hdata'
        rw [hself] at hdata'
        cases hdata'
        exact hlen
      · simp only [logged] at hdata'
        rw [LawfulStorage.read_write_of_ne _ _ _ _ hp] at hdata'
        exact h.page_length p data' hdata'
  | err e wal₁ =>
      rw [houtcome] at happend
      cases happend
      rw [(append_err houtcome).1]
      exact h
  | panic =>
      rw [houtcome] at happend
      cases happend

/-- A record that is longer than a segment is not appended. -/
theorem append_long {record : WALRecord} {wal : WAL} {data : Bytes} (h : Segmented wal)
    (hdata : serializeRecord record = .ok data) (hlong : 8192 < data.length) :
    append record wal = .panic := by
  cases houtcome : append record wal with
  | ok lsn wal' =>
      obtain ⟨data', page, page', hdata', -, -, -, hread, hcopy, -⟩ := append_cases houtcome
      rw [hdata] at hdata'
      cases hdata'
      have hpage := h.page_length _ page hread
      unfold copyFromSlice at hcopy
      split at hcopy
      · rename_i hfits
        rw [growTo_length, h.segmentSize_eq, hpage] at hfits
        omega
      · cases hcopy
  | err e wal' =>
      obtain ⟨-, e', herr⟩ := append_err houtcome
      rw [hdata] at herr
      cases herr
  | panic => rfl

end Log

section Invariant

variable [Bincode] {σ : Type} [StorageTrait σ]

/-- The pages of a relation are numbered upwards and hold encodings of tuples. -/
structure PagesCoded (storage : σ) (rel : Relation) : Prop where
  increasing : rel.pages.Pairwise fun p q => p.val < q.val
  coded : ∀ p ∈ rel.pages, CodedAt (fun _ => True) storage p

/-- The pages of every relation hold encodings, and the log is that of the server. -/
structure SegmentedDatabase (db : Database σ) : Prop where
  pages : ∀ relOid rel, db.cache.rels.lookup relOid = some rel →
    PagesCoded db.cache.disk.storage rel
  log : Segmented db.wal

/-- An effect that keeps a database segmented, and whose record fits. -/
def Allowed (db : Database σ) : HeapOp → Prop
  | .writePage _ data => ∃ page, Holds (Coded fun _ => True) page ∧ data = image page
  | .setRelation _ rel => PagesCoded db.cache.disk.storage rel
  | .append record => RecordFits record
  | _ => True

variable {db db' : Database σ}

theorem codedAt_write [LawfulStorage σ] {P : Tuple → Prop} {storage : σ} {p q : PageId}
    {page : HeapPage} (h : CodedAt P storage q) (hpage : Holds (Coded P) page) :
    CodedAt P (writePage storage p (image page)).2 q := by
  by_cases hqp : q = p
  · subst hqp
    exact ⟨page, hpage, LawfulStorage.read_write_self _ _ _⟩
  · exact codedAt_write_of_ne h hqp _

theorem SegmentedDatabase.nodup (h : SegmentedDatabase db) {relOid : Oid} {rel : Relation}
    (hrel : db.cache.rels.lookup relOid = some rel) : rel.pages.Nodup := by
  apply (h.pages relOid rel hrel).increasing.imp
  rintro p q hlt rfl
  exact absurd hlt (UInt32.lt_irrefl _)

omit [Bincode] [StorageTrait σ] in
theorem keeps_onDisk {α : Type} {R : PoolState σ → PoolState σ → Prop}
    {proc : Proc (PoolState σ) α} (h : Keeps R proc) :
    Keeps (fun db db' : Database σ => ∃ disk, R db.cache.disk disk ∧
      db' = { db with cache := { db.cache with disk := disk } }) (onCache (onDisk proc)) := by
  have hcache : Keeps (fun cache cache' : SharedBufferCache σ => ∃ disk, R cache.disk disk ∧
      cache' = { cache with disk := disk }) (onDisk proc) :=
    keeps_within h fun cache disk hdisk => ⟨disk, hdisk, rfl⟩
  refine keeps_within hcache ?_
  rintro db cache ⟨disk, hdisk, rfl⟩
  exact ⟨disk, hdisk, rfl⟩

omit [Bincode] in
theorem keeps_readStorage (p : PageId) :
    Keeps (fun s s' : PoolState σ => s' = s) (readStorage p) := by
  intro s s' hs
  unfold readStorage at hs
  split at hs
  all_goals
    cases hs
    rfl

omit [Bincode] in
theorem keeps_writeStorage (p : PageId) (data : Bytes) :
    Keeps (fun s s' : PoolState σ => s' = { s with storage := (writePage s.storage p data).2 })
      (writeStorage p data) := by
  intro s s' hs
  unfold writeStorage at hs
  split at hs
  all_goals
    rename_i hwrite
    cases hs
    rw [hwrite]

theorem SegmentedDatabase.write [LawfulStorage σ] {page : HeapPage} (h : SegmentedDatabase db)
    (p : PageId) (hpage : Holds (Coded fun _ => True) page) :
    SegmentedDatabase { db with
      cache := withStorage db.cache (writePage db.cache.disk.storage p (image page)).2 } := by
  refine ⟨?_, h.log⟩
  intro relOid rel hrel
  have hpages := h.pages relOid rel hrel
  exact ⟨hpages.increasing, fun q hq => codedAt_write (hpages.coded q hq) hpage⟩

/-- Effects of this kind keep the invariant. -/
theorem segmentedDatabase_step [LawfulStorage σ] {op : HeapOp} {answer : heapEffects.Answer op}
    (h : SegmentedDatabase db) (hop : Allowed db op)
    (hstep : heapMachine op db = some (answer, db')) : SegmentedDatabase db' := by
  cases op with
  | getRelation relOid =>
      have hstate := answered_state hstep
      rw [getRelationState_apply] at hstate
      split at hstate
      all_goals cases hstate; exact h
  | readPage pageId =>
      obtain ⟨disk, rfl, rfl⟩ := keeps_answered (keeps_onDisk (keeps_readStorage pageId)) hstep
      exact h
  | writePage pageId data =>
      obtain ⟨page, hpage, rfl⟩ := hop
      obtain ⟨disk, rfl, rfl⟩ :=
        keeps_answered (keeps_onDisk (keeps_writeStorage pageId _)) hstep
      exact h.write pageId hpage
  | setRelation relOid rel =>
      cases hstep
      refine ⟨?_, h.log⟩
      intro relOid' rel' hrel'
      by_cases hoid : relOid' = relOid
      · subst hoid
        rw [AList.lookup_insert] at hrel'
        cases hrel'
        exact hop
      · rw [AList.lookup_insert_ne hoid] at hrel'
        exact h.pages relOid' rel' hrel'
  | allocateXid =>
      cases hstep
      exact ⟨h.pages, h.log.segmentSize_eq, h.log.page_length⟩
  | append record =>
      have hkeeps : Keeps (fun db db' : Database σ => db'.cache = db.cache ∧
          (append record db.wal).state? = some db'.wal) (onWal (append record)) :=
        keeps_within (R := fun wal wal' => (append record wal).state? = some wal')
          (fun _ _ hs => hs) fun _ _ hs => ⟨rfl, hs⟩
      obtain ⟨hcache, hwal⟩ := keeps_answered hkeeps hstep
      refine ⟨?_, segmented_append h.log hwal⟩
      rw [hcache]
      exact h.pages

end Invariant

section Programs

variable [Bincode] {σ : Type} [StorageTrait σ] {db : Database σ}

/-- Every effect the program attempts is allowed. -/
abbrev Keeping {α : Type} (p : HeapProgram α) (db : Database σ) : Prop :=
  Attempts heapMachine Allowed p db

theorem keeping_effect {op : HeapOp} (h : Allowed db op) : Keeping (effect op) db :=
  attempts_call h

theorem keeping_relationState (relOid : Oid) (db : Database σ) :
    Keeping (relationState relOid) db :=
  attempts_bind (keeping_effect trivial) fun _ _ _ => attempts_ofExcept _ _

theorem keeping_loadPage (pageId : PageId) (db : Database σ) : Keeping (loadPage pageId) db := by
  refine attempts_bind (keeping_effect trivial) fun answer db' _ => ?_
  exact attempts_bind (attempts_ofExcept _ _) fun _ _ _ => attempts_orPanic _ _

theorem keeping_storePage (pageId : PageId) {page : HeapPage}
    (hpage : Holds (Coded fun _ => True) page) : Keeping (storePage pageId page) db := by
  refine attempts_bind (attempts_orPanic _ _) fun data db' hdata => ?_
  rw [run_orPanic] at hdata
  obtain ⟨hdata, rfl⟩ := orPanic_eq_ok.mp hdata
  rw [serialize_eq_image hpage.wellFormed] at hdata
  cases hdata
  exact attempts_bind (keeping_effect ⟨page, hpage, rfl⟩) fun _ _ _ => attempts_ofExcept _ _

theorem keeping_logChange {record : WALRecord} (h : RecordFits record) :
    Keeping (logChange record) db :=
  attempts_bind (keeping_effect h) fun _ _ _ => attempts_ofExcept _ _

/-- The end of every change: its record is logged. -/
theorem keeping_logged {α : Type} {record : WALRecord} (h : RecordFits record) (a : α) :
    Keeping (logChange record >>= fun _ => pure a) db :=
  attempts_bind (keeping_logChange h) fun _ _ _ => attempts_pure _ _

theorem keeping_orPanic_bind {α β : Type} {x : Option α} {f : α → HeapProgram β}
    (h : ∀ a, x = some a → Keeping (f a) db) : Keeping (orPanic x >>= f) db := by
  refine attempts_bind (attempts_orPanic _ _) fun a db' hrun => ?_
  rw [run_orPanic] at hrun
  obtain ⟨ha, rfl⟩ := orPanic_eq_ok.mp hrun
  exact h a ha

theorem keeping_ofExcept_bind {α β : Type} {x : Except String α} {f : α → HeapProgram β}
    (h : ∀ a, x = .ok a → Keeping (f a) db) : Keeping (ofExcept x >>= f) db := by
  refine attempts_bind (attempts_ofExcept _ _) fun a db' hrun => ?_
  rw [run_ofExcept] at hrun
  obtain ⟨ha, rfl⟩ := ofExcept_eq_ok.mp hrun
  exact h a ha

theorem keeping_allocateXid_bind {β : Type} {f : UInt64 → HeapProgram β}
    (h : Keeping (f db.wal.currentXid)
      { db with wal := { db.wal with currentXid := db.wal.currentXid + 1 } }) :
    Keeping (effect .allocateXid >>= f) db := by
  refine attempts_bind (keeping_effect trivial) fun xid db' hrun => ?_
  rw [run_allocateXid, allocateXid_apply] at hrun
  cases hrun
  exact h

theorem keeping_insertPage (rel : Relation) : Keeping (insertPageProgram rel) db := by
  have hnew : Holds (Coded fun _ => True) HeapPage.new := holds_new _
  unfold insertPageProgram
  generalize HeapPage.new = page at hnew
  cases rel.pages.getLast? with
  | none =>
      exact attempts_bind (keeping_storePage _ hnew) fun _ _ _ => attempts_pure _ _
  | some pageId => exact attempts_pure _ _

variable [LawfulStorage σ]

theorem keeping_storePage_bind {β : Type} {pageId : PageId} {page : HeapPage}
    {f : Unit → HeapProgram β} (hpage : Holds (Coded fun _ => True) page)
    (h : Keeping (f ()) { db with
      cache := withStorage db.cache (writePage db.cache.disk.storage pageId (image page)).2 }) :
    Keeping (storePage pageId page >>= f) db := by
  refine attempts_bind (keeping_storePage pageId hpage) fun _ db' hrun => ?_
  rw [run_storePage, writeHeapPage_ok (serialize_eq_image hpage.wellFormed)] at hrun
  cases hrun
  exact h

theorem pagesCoded_openPages {rel : Relation} (h : PagesCoded db.cache.disk.storage rel) :
    PagesCoded (openStorage db.cache.disk.storage rel) { rel with pages := openPages rel } :=
  ⟨openPages_increasing h.increasing, fun q hq => codedAt_openStorage hq fun hmem => h.coded q hmem⟩

/-- Writing a page of encodings leaves a relation's pages pages of encodings. -/
theorem PagesCoded.write {storage : σ} {rel : Relation} {p : PageId} {page : HeapPage}
    (h : PagesCoded storage rel) (hpage : Holds (Coded fun _ => True) page) :
    PagesCoded (writePage storage p (image page)).2 rel :=
  ⟨h.increasing, fun q hq => codedAt_write (h.coded q hq) hpage⟩

theorem PagesCoded.extend {storage : σ} {rel : Relation} {next : PageId} {page : HeapPage}
    (h : PagesCoded storage { rel with pages := openPages rel })
    (hrel : rel.pages.Pairwise fun p q => p.val < q.val)
    (hnext : nextPageId (openPage rel) = some next) (hpage : Holds (Coded fun _ => True) page) :
    PagesCoded (writePage storage next (image page)).2
      { rel with pages := openPages rel ++ [next] } := by
  refine ⟨?_, ?_⟩
  · refine List.pairwise_append.mpr ⟨h.increasing, List.pairwise_singleton _ _, ?_⟩
    intro q hq next' hmem
    rw [List.mem_singleton] at hmem
    have hlt := nextPageId_val hnext
    rw [hmem]
    rcases openPages_le hrel hq with rfl | hbelow
    · exact hlt
    · exact UInt32.lt_trans hbelow hlt
  · intro q hq
    rcases List.mem_append.mp hq with hq | hq
    · exact codedAt_write (h.coded q hq) hpage
    · rw [List.mem_singleton.mp hq]
      exact ⟨page, hpage, LawfulStorage.read_write_self _ _ _⟩

variable [LawfulBincode]

omit [StorageTrait σ] [LawfulStorage σ] in
theorem recordFits_insert {tup : Tuple} {encoded : Bytes} (relOid : Oid) (pageId : PageId)
    (hencoded : serializeTuple tup = .ok encoded) (hlen : encoded.length ≤ 8180) :
    RecordFits (.insert relOid pageId tup) := by
  obtain ⟨data, hdata, hlen'⟩ := LawfulBincode.serialize_insert relOid pageId hencoded
  exact ⟨data, hdata, by omega⟩

theorem keeping_insert {relOid : Oid} {values : List Bytes} (h : SegmentedDatabase db)
    (hfits : ∀ encoded, serializeTuple (newTuple values db.wal.currentXid) = .ok encoded →
      encoded.length ≤ 8180) : Keeping (insertProgram relOid values) db := by
  refine attempts_bind (keeping_relationState relOid db) fun rel db' hrun => ?_
  rw [run_relationState] at hrun
  obtain ⟨hrel, rfl⟩ := getRelationState_eq_ok.mp hrun
  have hpages := h.pages relOid rel hrel
  refine attempts_bind (keeping_insertPage rel) fun opened db' hrun => ?_
  rw [run_insertPage, insertPage_apply] at hrun
  cases hrun
  have hopened := pagesCoded_openPages hpages
  refine attempts_bind (keeping_loadPage _ _) fun page db' hrun => ?_
  rw [run_loadPage] at hrun
  obtain ⟨hat, rfl⟩ := readHeapPage_eq_ok.mp hrun
  obtain ⟨page₀, hpage₀, rfl⟩ := holds_of_pageAt (codedAt_open fun hmem => hpages.coded _ hmem) hat
  have hpage := holds_stored hpage₀
  apply keeping_allocateXid_bind
  apply keeping_ofExcept_bind
  intro encoded hencoded
  have hcoded : Coded (fun _ => True) encoded := ⟨_, hencoded, trivial⟩
  have hne := serializeTuple_ne_nil hencoded
  apply keeping_orPanic_bind
  rintro ⟨page', slot⟩ hadd
  have hpage' := holds_addTuple hpage hne hcoded hadd
  cases slot with
  | none =>
      apply keeping_orPanic_bind
      intro next hnext
      apply keeping_orPanic_bind
      rintro ⟨newPage, used⟩ hnew
      have hnewPage := holds_addTuple (holds_new _) hne hcoded hnew
      apply keeping_storePage_bind hnewPage
      apply keeping_storePage_bind hpage'
      refine attempts_bind (keeping_effect ?_) fun _ _ _ =>
        keeping_logged (recordFits_insert _ _ hencoded (hfits _ hencoded)) _
      exact (hopened.extend hpages.increasing hnext hnewPage).write hpage'
  | some slot =>
      apply keeping_storePage_bind hpage'
      refine attempts_bind (keeping_effect ?_) fun _ _ _ =>
        keeping_logged (recordFits_insert _ _ hencoded (hfits _ hencoded)) _
      exact hopened.write hpage'

end Programs

section Tuples

variable [Bincode] {σ : Type} [StorageTrait σ] {db : Database σ} {page : HeapPage}

omit [Bincode] in
theorem length_le_totalLen {lps : List LinePointer} {tuples : List Bytes} {slot : Nat}
    {lp : LinePointer} {bytes : Bytes} (hlp : lps[slot]? = some lp)
    (hnormal : lp.lpFlags = lpNormal)
    (hbytes : tuples[slot]? = some bytes) : bytes.length ≤ HeapPage.totalLen lps tuples := by
  induction lps generalizing tuples slot with
  | nil => simp at hlp
  | cons first lps ih =>
      cases tuples with
      | nil => simp at hbytes
      | cons tuple tuples =>
          cases slot with
          | zero =>
              simp only [List.getElem?_cons_zero, Option.some.injEq] at hlp hbytes
              subst hlp hbytes
              simp only [HeapPage.totalLen, hnormal, if_true]
              omega
          | succ slot =>
              simp only [List.getElem?_cons_succ] at hlp hbytes
              have hrest := ih hlp hbytes
              simp only [HeapPage.totalLen]
              omega

/-- A tuple on a page leaves room for the page's header and its line pointer. -/
theorem length_le_of_slotHolds {slot : Nat} {tup : Tuple} {bytes : Bytes}
    (hpage : WellFormed page) (hslot : SlotHolds page slot tup)
    (hbytes : serializeTuple tup = .ok bytes) : bytes.length ≤ 8162 := by
  have hlt := hslot.lt.1
  obtain ⟨lp, bytes', hlp, hnormal, hbytes', hcode⟩ := hslot
  rw [hbytes] at hcode
  cases hcode
  have hlen := length_le_totalLen hlp hnormal hbytes'
  have hlower := hpage.lower_eq
  have hle := hpage.lower_le_upper
  have hupper := hpage.upper_le
  simp only [pageHeaderSize, linePointerSize, pageSize] at hlower hupper
  omega

/-- The loop over a page's tuples that updates and deletes share. -/
theorem keeping_tuples {ε : Type} {loop : List ε → HeapPage → HeapProgram Unit}
    (body : ε → HeapPage → HeapProgram HeapPage) (slotAt : ε → Nat) (tupleAt : ε → Tuple)
    (hnil : ∀ page, loop [] page = pure ())
    (hcons : ∀ entry rest page, loop (entry :: rest) page = body entry page >>= loop rest)
    (Inv : HeapPage → Database σ → Prop) (Good : ε → Prop)
    (hbody : ∀ entry page db, Inv page db → SlotHolds page (slotAt entry) (tupleAt entry) →
      Good entry →
      Keeping (body entry page) db ∧ ∀ page' db', run heapMachine (body entry page) db =
        .ok page' db' → Inv page' db' ∧
          ∀ slot tup, slot ≠ slotAt entry → SlotHolds page slot tup → SlotHolds page' slot tup)
    {work : List ε} (hinv : Inv page db)
    (hwork : ∀ entry ∈ work, SlotHolds page (slotAt entry) (tupleAt entry) ∧ Good entry)
    (hnodup : (work.map slotAt).Nodup) : Keeping (loop work page) db := by
  induction work generalizing page db with
  | nil =>
      rw [hnil]
      exact attempts_pure _ _
  | cons entry work ih =>
      obtain ⟨hnot, hnodup⟩ := List.nodup_cons.mp hnodup
      obtain ⟨hslot, hgood⟩ := hwork entry List.mem_cons_self
      obtain ⟨hkeeping, hrun⟩ := hbody entry page db hinv hslot hgood
      rw [hcons]
      refine attempts_bind hkeeping fun page' db' hok => ?_
      obtain ⟨hinv', hothers⟩ := hrun page' db' hok
      refine ih hinv' ?_ hnodup
      intro other hother
      obtain ⟨hslot', hgood'⟩ := hwork other (List.mem_cons_of_mem _ hother)
      refine ⟨hothers _ _ ?_ hslot', hgood'⟩
      intro heq
      exact hnot (List.mem_map.mpr ⟨other, hother, heq⟩)

/-- The loop over a relation's pages that updates and deletes share. -/
theorem keeping_pages {loop : List PageId → HeapProgram Nat}
    (body : PageId → HeapPage → HeapProgram Unit) (work : HeapPage → Nat)
    (hnil : loop [] = pure 0)
    (hcons : ∀ q ids, loop (q :: ids) = do
      let page ← loadPage q
      body q page
      let rest ← loop ids
      pure (work page + rest))
    (Good : HeapPage → Prop)
    (hbody : ∀ q page (db : Database σ), Holds (Coded fun _ => True) page →
      readPage db.cache.disk.storage q = .ok (image page) → Good (stored page) →
      Keeping (body q (stored page)) db ∧ ∀ db', run heapMachine (body q (stored page)) db =
        .ok () db' → Rewrites (fun _ => True) (· = q) db db')
    {ids : List PageId} (hnodup : ids.Nodup)
    (hcoded : ∀ q ∈ ids, CodedAt (fun _ => True) db.cache.disk.storage q)
    (hgood : ∀ q ∈ ids, ∀ page, PageAt db.cache.disk.storage q page → Good page) :
    Keeping (loop ids) db := by
  induction ids generalizing db with
  | nil =>
      rw [hnil]
      exact attempts_pure _ _
  | cons q ids ih =>
      obtain ⟨hnot, hnodup⟩ := List.nodup_cons.mp hnodup
      obtain ⟨page, hpage, hread⟩ := hcoded q List.mem_cons_self
      have hat : PageAt db.cache.disk.storage q (stored page) :=
        ⟨image page, hread, deserialize_image hpage.wellFormed⟩
      obtain ⟨hkeeping, hrun⟩ := hbody q page db hpage hread (hgood q List.mem_cons_self _ hat)
      rw [hcons]
      refine attempts_bind (keeping_loadPage q db) fun page' db' hload => ?_
      rw [run_loadPage] at hload
      obtain ⟨hat', rfl⟩ := readHeapPage_eq_ok.mp hload
      rw [pageAt_unique hat' hat]
      refine attempts_bind hkeeping fun _ db' hok => ?_
      have hrewrites := hrun db' hok
      have hsame : ∀ r ∈ ids, readPage db'.cache.disk.storage r =
          readPage db.cache.disk.storage r := by
        intro r hr
        apply hrewrites.untouched r
        rintro rfl
        exact hnot hr
      refine attempts_bind (ih hnodup ?_ ?_) fun _ _ _ => attempts_pure _ _
      · intro r hr
        exact hrewrites.coded r (hcoded r (List.mem_cons_of_mem _ hr))
      · intro r hr page'' hat''
        refine hgood r (List.mem_cons_of_mem _ hr) page'' ?_
        rw [← pageOf_eq_some] at hat'' ⊢
        rw [← hat'', pageOf, pageOf, hsame r hr]

end Tuples

section Changes

variable [Bincode] {σ : Type} [StorageTrait σ] [LawfulStorage σ] [LawfulBincode]
  [LawfulBincodeChanges] {db : Database σ} {page : HeapPage} {slot : Nat} {tup : Tuple}

/-- The two versions of an updated row fit into a record. -/
def VersionsFit (tup : Tuple) (data : Bytes) : Prop :=
  ∀ old new, serializeTuple tup = .ok old → serializeTuple { tup with data := data } = .ok new →
    old.length + new.length ≤ 8180

omit [LawfulBincode] [StorageTrait σ] [LawfulStorage σ] in
theorem recordFits_delete {encoded : Bytes} (relOid : Oid) (pageId : PageId)
    (hencoded : serializeTuple tup = .ok encoded) (hlen : encoded.length ≤ 8180) :
    RecordFits (.delete relOid pageId tup) := by
  obtain ⟨data, hdata, hlen'⟩ := LawfulBincodeChanges.serialize_delete relOid pageId hencoded
  exact ⟨data, hdata, by omega⟩

omit [StorageTrait σ] [LawfulStorage σ] in
theorem recordFits_update {data old new : Bytes} {xid : UInt64} (relOid : Oid) (pageId : PageId)
    (hfits : VersionsFit tup data) (hold : serializeTuple { tup with xmax := xid } = .ok old)
    (hnew : serializeTuple { tup with xmin := xid, xmax := 0, data := data } = .ok new) :
    RecordFits (.update relOid pageId { tup with xmax := xid }
      { tup with xmin := xid, xmax := 0, data := data }) := by
  obtain ⟨old', hold', holdLen⟩ := LawfulBincode.serialize_stamped tup.xmin tup.xmax hold
  obtain ⟨new', hnew', hnewLen⟩ := LawfulBincode.serialize_stamped tup.xmin tup.xmax hnew
  obtain ⟨bytes, hbytes, hlen⟩ := LawfulBincodeChanges.serialize_update relOid pageId hold hnew
  have hsum := hfits old' new' hold' hnew'
  exact ⟨bytes, hbytes, by omega⟩

theorem keeping_deleteTuple (relOid : Oid) (pageId : PageId)
    (hpage : Holds (Coded fun _ => True) page) (hslot : SlotHolds page slot tup) :
    Keeping (deleteTupleProgram relOid pageId page slot tup) db := by
  apply keeping_allocateXid_bind
  apply keeping_ofExcept_bind
  intro encoded hencoded
  apply keeping_orPanic_bind
  intro page' hreplace
  obtain ⟨lp, old, hlp, hnormal, hold, hcode⟩ := id hslot
  have hpage' := holds_restamp hpage trivial (stamps_true db.wal.currentXid).1 hold hcode hencoded
  obtain ⟨encoded', hencoded', hlen⟩ :=
    LawfulBincode.serialize_stamped tup.xmin db.wal.currentXid hcode
  rw [hencoded] at hencoded'
  cases hencoded'
  have hshort := length_le_of_slotHolds hpage.wellFormed hslot hcode
  unfold replaceTuple at hreplace
  split at hreplace
  · cases hreplace
    apply keeping_storePage_bind hpage'
    exact keeping_logged (recordFits_delete _ _ hencoded (by omega)) _
  · cases hreplace

omit [Bincode] [StorageTrait σ] [LawfulStorage σ] [LawfulBincode] [LawfulBincodeChanges] in
/-- The version that a HOT update has put on its page is the one read back for
the record. -/
theorem hotUpdate_newVersion {page' : HeapPage} {old newSlot : UInt16} {newEncoded bytes : Bytes}
    {oldEncoded : Bytes} (hpage : WellFormed page) (hslot : slot < page.tuples.length)
    (h : page.hotUpdate old newEncoded = some (page', some newSlot))
    (hbytes : (page'.setTuple slot oldEncoded).tuples[newSlot.toNat]? = some bytes) :
    bytes = newEncoded := by
  obtain ⟨-, hnone⟩ | ⟨lp, -, -, -, -, hnew, rfl⟩ := hotUpdate_cases h
  · cases hnone
  cases hnew
  have hsize := linePointers_lt hpage
  have hval : (UInt16.ofNat page.linePointers.length).toNat = page.tuples.length := by
    rw [UInt16.toNat_ofNat', hpage.length_eq]
    exact Nat.mod_eq_of_lt (by omega)
  simp only [HeapPage.setTuple, hval] at hbytes
  rw [List.getElem?_set_ne (by omega), List.getElem?_concat_length] at hbytes
  exact (Option.some.inj hbytes).symm

theorem keeping_updateTuple (relOid : Oid) (pageId : PageId) {newData : Bytes}
    (hpage : Holds (Coded fun _ => True) page) (hslot : SlotHolds page slot tup)
    (hfits : VersionsFit tup newData) :
    Keeping (updateTupleProgram relOid pageId page slot tup newData) db := by
  apply keeping_allocateXid_bind
  apply keeping_ofExcept_bind
  intro newEncoded hnew
  have hne := serializeTuple_ne_nil hnew
  have hcoded : Coded (fun _ => True) newEncoded := ⟨_, hnew, trivial⟩
  apply keeping_orPanic_bind
  rintro ⟨page₁, hotSlot⟩ hhot
  have hpage₁ := holds_hotUpdate hpage hne hcoded hhot
  apply keeping_ofExcept_bind
  intro oldEncoded hold
  apply keeping_orPanic_bind
  intro page₂ hreplace
  obtain ⟨lp, bytes, hlp, hnormal, hbytes, hcode⟩ := id hslot
  have hbytes₁ : page₁.tuples[slot]? = some bytes :=
    (hotUpdate_getElem? hhot hslot.lt.2).trans hbytes
  have hpage₂ := holds_restamp hpage₁ trivial (stamps_true db.wal.currentXid).1 hbytes₁ hcode hold
  have hrecord := recordFits_update relOid pageId hfits hold hnew
  unfold replaceTuple at hreplace
  split at hreplace
  · cases hreplace
    cases hotSlot with
    | some newSlot =>
        apply keeping_storePage_bind hpage₂
        apply keeping_orPanic_bind
        intro newBytes hnewBytes
        have hsame := hotUpdate_newVersion hpage.wellFormed hslot.lt.2 hhot hnewBytes
        apply keeping_ofExcept_bind
        intro newTup hnewTup
        rw [hsame, LawfulBincode.deserialize_serialize hnew] at hnewTup
        cases hnewTup
        exact keeping_logged hrecord _
    | none =>
        apply keeping_ofExcept_bind
        intro newEncoded' hnew'
        rw [hnew] at hnew'
        cases hnew'
        apply keeping_orPanic_bind
        rintro ⟨page₃, used⟩ hadd
        apply keeping_storePage_bind (holds_addTuple hpage₂ hne hcoded hadd)
        exact keeping_logged hrecord _
  · cases hreplace

theorem keeping_delete {relOid : Oid} {filter : Option Filter} (h : SegmentedDatabase db) :
    Keeping (deleteProgram relOid filter) db := by
  refine attempts_bind (keeping_relationState relOid db) fun rel db' hrun => ?_
  rw [run_relationState] at hrun
  obtain ⟨hrel, rfl⟩ := getRelationState_eq_ok.mp hrun
  refine keeping_pages
    (fun q page => deleteTuplesProgram relOid q (matchingTuples page rel.tupleDesc filter) page)
    (fun page => (matchingTuples page rel.tupleDesc filter).length) rfl (fun _ _ => rfl)
    (fun _ => True) ?_ (h.nodup hrel) (h.pages relOid rel hrel).coded fun _ _ _ _ => trivial
  intro q page db' hpage hread _
  have hholds := holds_stored hpage
  have hwork : ∀ entry ∈ matchingTuples (stored page) rel.tupleDesc filter,
      SlotHolds (stored page) entry.1 entry.2 ∧ True :=
    fun entry hentry => matchingTuples_holds hpage hentry
  have hsync : InSync db' q (stored page) := by
    intro slot tup hslot
    rw [hread] at hslot
    exact slotHolds_of_slotIn hpage.wellFormed hslot
  refine ⟨?_, ?_⟩
  · refine keeping_tuples (fun entry page => deleteTupleProgram relOid q page entry.1 entry.2)
      Prod.fst Prod.snd (fun _ => rfl) (fun _ _ _ => rfl)
      (fun page db => InSync db q page ∧ Holds (Coded fun _ => True) page) (fun _ => True) ?_
      ⟨hsync, hholds⟩ hwork (matchingTuples_nodup _ _ _)
    rintro entry page₁ db₁ ⟨hsync₁, hpage₁⟩ hslot _
    refine ⟨keeping_deleteTuple relOid q hpage₁ hslot, ?_⟩
    intro page₂ db₂ hok
    rw [run_deleteTuple] at hok
    have hensures := deleteTuple_ensures relOid (rewrites_refl (fun _ => True) (· = q) db₁)
      (restamps_refl (fun _ => True) db₁) hsync₁ hpage₁ hslot trivial (stamps_true _).1 trivial
    obtain ⟨⟨-, -, hinv⟩, -, hothers⟩ := hensures.of_ok hok
    exact ⟨hinv, hothers⟩
  · intro db'' hok
    rw [run_deleteTuples] at hok
    have hensures := deleteTuples_ensures (W := fun _ => True) relOid hsync hholds hwork
      (matchingTuples_nodup _ _ _) fun _ _ => ⟨(stamps_true _).1, trivial⟩
    exact (hensures.of_ok hok).1.1

theorem keeping_update {relOid : Oid} {columnIdx : Nat} {newValue : Bytes}
    {filter : Option Filter} (h : SegmentedDatabase db)
    (hfits : ∀ rel, db.cache.rels.lookup relOid = some rel → ∀ p ∈ rel.pages,
      ∀ page, PageAt db.cache.disk.storage p page →
        ∀ entry ∈ tuplesToUpdate page rel.tupleDesc columnIdx newValue filter,
          VersionsFit entry.2.1 entry.2.2) :
    Keeping (updateProgram relOid columnIdx newValue filter) db := by
  refine attempts_bind (keeping_relationState relOid db) fun rel db' hrun => ?_
  rw [run_relationState] at hrun
  obtain ⟨hrel, rfl⟩ := getRelationState_eq_ok.mp hrun
  refine keeping_pages
    (fun q page => updateTuplesProgram relOid q
      (tuplesToUpdate page rel.tupleDesc columnIdx newValue filter) page)
    (fun page => (tuplesToUpdate page rel.tupleDesc columnIdx newValue filter).length) rfl
    (fun _ _ => rfl)
    (fun page => ∀ entry ∈ tuplesToUpdate page rel.tupleDesc columnIdx newValue filter,
      VersionsFit entry.2.1 entry.2.2)
    ?_ (h.nodup hrel) (h.pages relOid rel hrel).coded (hfits rel hrel)
  intro q page db' hpage hread hgood
  have hholds := holds_stored hpage
  have hwork : ∀ entry ∈ tuplesToUpdate (stored page) rel.tupleDesc columnIdx newValue filter,
      SlotHolds (stored page) entry.1 entry.2.1 ∧ True :=
    fun entry hentry => matchingTuples_holds hpage (mem_tuplesToUpdate hentry)
  refine ⟨?_, ?_⟩
  · refine keeping_tuples
      (fun entry page => updateTupleProgram relOid q page entry.1 entry.2.1 entry.2.2)
      Prod.fst (fun entry => entry.2.1) (fun _ => rfl) (fun _ _ _ => rfl)
      (fun page _ => Holds (Coded fun _ => True) page)
      (fun entry => VersionsFit entry.2.1 entry.2.2) ?_ hholds
      (fun entry hentry => ⟨(hwork entry hentry).1, hgood entry hentry⟩)
      (tuplesToUpdate_nodup _ _ _ _ _)
    intro entry page₁ db₁ hpage₁ hslot hversions
    refine ⟨keeping_updateTuple relOid q hpage₁ hslot hversions, ?_⟩
    intro page₂ db₂ hok
    rw [run_updateTuple] at hok
    have hensures := updateTuple_ensures relOid entry.2.2
      (rewrites_refl (fun _ => True) (· = q) db₁) hpage₁ hslot trivial (stamps_true _)
    obtain ⟨⟨-, hpage₂⟩, -, hothers⟩ := hensures.of_ok hok
    exact ⟨hpage₂, hothers⟩
  · intro db'' hok
    rw [run_updateTuples] at hok
    obtain ⟨hrewrites, -⟩ := Ensures.of_ok (updateTuples_ensures relOid hholds hwork
      (tuplesToUpdate_nodup _ _ _ _ _) fun _ _ => stamps_true _) hok
    exact hrewrites

end Changes

section Runs

variable [Bincode] {σ : Type} [StorageTrait σ] {db db' : Database σ}

/-- What happens to a server's relations and its log.  Scans change the pool only,
and transactions log records of their own. -/
inductive ServerEvent where
  | createTable (rel : Relation)
  | write (call : HeapCall)
  | vacuum (relOid : Oid) (oldestXmin : UInt32)
  | scan
  | log (record : WALRecord)

/-- One event.  A call that panics leaves what it had written. -/
def ServerStep (db : Database σ) (event : ServerEvent) (db' : Database σ) : Prop :=
  match event with
  | .createTable rel => rel.pages = [] ∧ db' = ⟨registerRelation db.cache rel, db.wal⟩
  | .write call => db' = last heapMachine call.program db
  | .vacuum relOid oldestXmin => (vacuumRelation relOid oldestXmin db).state? = some db'
  | .scan => ∃ pool, db' =
      { db with cache := { db.cache with disk := { db.cache.disk with pool := pool } } }
  | .log record => db'.cache = db.cache ∧ (append record db.wal).state? = some db'.wal

/-- No relations, and the server's log. -/
structure ServerStart (db : Database σ) : Prop where
  rels_eq : db.cache.rels = ∅
  wal_eq : db.wal = WAL.new 8192

/-- An inserted row fits on a page; an updated one fits into a record together
with its new version. -/
def FitsLog (db : Database σ) : HeapCall → Prop
  | .insert _ values => ∀ encoded,
      serializeTuple (newTuple values db.wal.currentXid) = .ok encoded → encoded.length ≤ 8162
  | .update relOid columnIdx newValue filter =>
      ∀ rel, db.cache.rels.lookup relOid = some rel → ∀ p ∈ rel.pages,
        ∀ page, PageAt db.cache.disk.storage p page →
          ∀ entry ∈ tuplesToUpdate page rel.tupleDesc columnIdx newValue filter,
            VersionsFit entry.2.1 entry.2.2
  | .delete _ _ => True

/-- Whatever record the effect logs is appended. -/
def LogsRecord (db : Database σ) (op : HeapPrograms.HeapOp) : Prop :=
  ∀ record, op = .append record → AppendsRecord db.wal record

theorem segmentedDatabase_start (h : ServerStart db) : SegmentedDatabase db := by
  refine ⟨?_, by rw [h.wal_eq]; exact segmented_new⟩
  intro relOid rel hrel
  rw [h.rels_eq] at hrel
  cases hrel

theorem segmentedDatabase_createTable {rel : Relation} (h : SegmentedDatabase db)
    (hempty : rel.pages = []) : SegmentedDatabase ⟨registerRelation db.cache rel, db.wal⟩ := by
  unfold registerRelation
  split
  · exact h
  · refine ⟨?_, h.log⟩
    intro relOid' rel' hrel'
    by_cases hoid : relOid' = rel.relOid
    · subst hoid
      rw [AList.lookup_insert] at hrel'
      cases hrel'
      exact ⟨by rw [hempty]; exact List.Pairwise.nil, by simp [hempty]⟩
    · rw [AList.lookup_insert_ne hoid] at hrel'
      exact h.pages relOid' rel' hrel'

/-- A database with other pages in the pool. -/
theorem SegmentedDatabase.of_storage {disk : PoolState σ} (h : SegmentedDatabase db)
    (hstorage : disk.storage = db.cache.disk.storage) :
    SegmentedDatabase { db with cache := { db.cache with disk := disk } } := by
  refine ⟨?_, h.log⟩
  intro relOid rel hrel
  simp only [hstorage]
  exact h.pages relOid rel hrel

omit [Bincode] [StorageTrait σ] in
theorem keeps_invalidatePage_storage (p : PageId) :
    Keeps (fun s s' : PoolState σ => s'.storage = s.storage) (invalidatePage p) := by
  intro s s' hs
  unfold invalidatePage lookupPage at hs
  simp only [bind_apply, read_apply] at hs
  cases hfound : s.pool.pageMap.lookup p with
  | none =>
      rw [hfound] at hs
      cases hs
      rfl
  | some idx =>
      rw [hfound] at hs
      simp only [modifyMap, bind_apply, modify_apply, buffer] at hs
      cases hbuf : s.pool.buffers[idx]? with
      | none =>
          rw [hbuf] at hs
          cases hs
      | some buf =>
          rw [hbuf] at hs
          cases hs
          rfl

variable [LawfulStorage σ]

theorem vacuumPages_segmented (oldestXmin : UInt32) {ids : List PageId}
    (h : SegmentedDatabase db)
    (hcoded : ∀ q ∈ ids, CodedAt (fun _ => True) db.cache.disk.storage q) :
    Ensures (vacuumPages oldestXmin ids) db (fun _ => SegmentedDatabase) SegmentedDatabase := by
  refine (vacuumPages_rule (I := fun db => SegmentedDatabase db ∧
    ∀ r ∈ ids, CodedAt (fun _ => True) db.cache.disk.storage r) oldestXmin
    (fun _ h => h.2) ?_ ⟨h, hcoded⟩).imp (fun _ _ h => h.1) fun _ h => h.1
  rintro db q page ⟨h, hcoded⟩ hpage
  have hwritten := h.write q hpage
  have hkept : ∀ db', (∃ disk : PoolState σ,
      disk.storage = (writePage db.cache.disk.storage q (image page)).2 ∧
        db' = { db with cache := { db.cache with disk := disk } }) →
      SegmentedDatabase db' ∧ ∀ r ∈ ids, CodedAt (fun _ => True) db'.cache.disk.storage r := by
    rintro db' ⟨disk, hdisk, rfl⟩
    refine ⟨hwritten.of_storage hdisk, ?_⟩
    intro r hr
    simp only [hdisk]
    exact codedAt_write (hcoded r hr) hpage
  exact ensures_of_keeps (keeps_onDisk (keeps_invalidatePage_storage q)) (fun _ => hkept) hkept

theorem segmentedDatabase_vacuum {relOid : Oid} {oldestXmin : UInt32}
    (h : SegmentedDatabase db) (hstate : (vacuumRelation relOid oldestXmin db).state? = some db') :
    SegmentedDatabase db' := by
  cases hrel : db.cache.rels.lookup relOid with
  | none =>
      have hget : onCache (getRelationState relOid) db = .err "Relation not found" db := by
        rw [getRelationState_apply, hrel]
      rw [vacuumRelation, bind_apply, hget] at hstate
      cases hstate
      exact h
  | some rel =>
      have hget : onCache (getRelationState relOid) db = .ok rel db :=
        getRelationState_eq_ok.mpr ⟨hrel, rfl⟩
      exact (ensures_ok_bind hget
        (vacuumPages_segmented oldestXmin h (h.pages relOid rel hrel).coded)).state hstate

variable [LawfulBincode] [LawfulBincodeChanges]

theorem keeping_call {call : HeapCall} (h : SegmentedDatabase db) (hfits : FitsLog db call) :
    Keeping call.program db := by
  cases call with
  | insert relOid values =>
      exact keeping_insert h fun encoded hencoded => (hfits encoded hencoded).trans (by decide)
  | update relOid columnIdx newValue filter =>
      exact attempts_bind (keeping_update h hfits) fun _ _ _ => attempts_pure _ _
  | delete relOid filter =>
      exact attempts_bind (keeping_delete h) fun _ _ _ => attempts_pure _ _

/-- What a call does on a segmented database if its rows fit. -/
theorem segmentedDatabase_call {call : HeapCall} (h : SegmentedDatabase db)
    (hfits : FitsLog db call) :
    Attempts heapMachine LogsRecord call.program db ∧
      SegmentedDatabase (last heapMachine call.program db) := by
  obtain ⟨hattempts, hlast⟩ := (keeping_call h hfits).invariant
    (fun _ _ _ _ hdb hop hstep => segmentedDatabase_step hdb hop hstep) h
  refine ⟨hattempts.mono ?_, hlast⟩
  rintro db' op ⟨hdb', hop⟩ record rfl
  exact appendsRecord_of_fits hdb'.log hop

/-- The records of inserts, updates and deletes fit into the server's log as long
as every updated row fits into a record together with its new version. -/
theorem heapRecords_fit {start final : Database σ}
    {transitions : List (Transition (Database σ) ServerEvent)} (hstart : ServerStart start)
    (hrun : Run ServerStep start transitions final)
    (hfits : ∀ tr ∈ transitions, ∀ call, tr.label = .write call → FitsLog tr.source call) :
    ∀ tr ∈ transitions, ∀ call, tr.label = .write call →
      Attempts heapMachine LogsRecord call.program tr.source := by
  have hinv := Run.invariant SegmentedDatabase
    (fun db event => ∀ call, event = .write call → FitsLog db call) ?_ hrun
    (segmentedDatabase_start hstart) hfits
  · intro tr htr call hlabel
    exact (segmentedDatabase_call (hinv.2 tr htr).1 (hfits tr htr call hlabel)).1
  · intro db event db' h hguard hstep
    cases event with
    | createTable rel =>
        obtain ⟨hempty, rfl⟩ := hstep
        exact segmentedDatabase_createTable h hempty
    | write call =>
        cases hstep
        exact (segmentedDatabase_call h (hguard call rfl)).2
    | vacuum relOid oldestXmin => exact segmentedDatabase_vacuum h hstep
    | scan =>
        obtain ⟨pool, rfl⟩ := hstep
        exact h.of_storage rfl
    | log record =>
        obtain ⟨hcache, hwal⟩ := hstep
        refine ⟨?_, segmented_append h.log hwal⟩
        rw [hcache]
        exact h.pages

end Runs

section Overflow

variable [Bincode] {σ : Type} [StorageTrait σ] [LawfulStorage σ] [LawfulBincode]
  [LawfulBincodeChanges] {db : Database σ} {page : HeapPage} {slot : Nat} {tup : Tuple}

omit [StorageTrait σ] [LawfulStorage σ] [Bincode] [LawfulBincode] [LawfulBincodeChanges] in
theorem addTuple_isSome {tuple : Bytes} (h : tuple.length ≤ page.header.pdUpper.toNat) :
    ∃ result, page.addTuple tuple = some result := by
  unfold HeapPage.addTuple
  simp only [checkedSub_eq_some.mpr ⟨h, rfl⟩, Option.bind_eq_bind, Option.bind_some]
  cases page.linePointers.findIdx? fun lp => lp.lpFlags = lpDead with
  | none =>
      simp only [Option.map_none, Option.isNone_none, if_true]
      split
      · exact ⟨_, rfl⟩
      · exact ⟨_, rfl⟩
  | some i =>
      simp only [Option.map_some, Option.isNone_some, Bool.false_eq_true, if_false]
      split
      · exact ⟨_, rfl⟩
      · exact ⟨_, rfl⟩

omit [StorageTrait σ] [LawfulStorage σ] [LawfulBincode] [LawfulBincodeChanges] in
theorem hotUpdate_full {tuple : Bytes} (hpage : WellFormed page) (hslot : SlotHolds page slot tup)
    (hroom : tuple.length ≤ page.header.pdUpper.toNat)
    (hfull : page.header.pdUpper.toNat - tuple.length <
      page.header.pdLower.toNat + linePointerSize) :
    page.hotUpdate (UInt16.ofNat slot) tuple = some (page, none) := by
  have hval : (UInt16.ofNat slot).toNat = slot := by
    rw [UInt16.toNat_ofNat']
    exact Nat.mod_eq_of_lt (by have := linePointers_lt hpage; have := hslot.lt.1; omega)
  obtain ⟨lp, bytes, hlp, hnormal, hbytes, hcode⟩ := hslot
  unfold HeapPage.hotUpdate
  rw [hval, hlp]
  simp only [hnormal, ne_eq, not_true_eq_false, if_false, checkedSub_eq_some.mpr ⟨hroom, rfl⟩,
    Option.bind_eq_bind, Option.bind_some, if_pos hfull]
  rfl

/-- An update that finds no room for the new version on its page logs a record of
both versions all the same. -/
theorem versions_le_of_logsRecord {relOid : Oid} {p : PageId} {newData old new : Bytes}
    (hpage : Holds (Coded fun _ => True) page) (hslot : SlotHolds page slot tup)
    (hold : serializeTuple tup = .ok old)
    (hnew : serializeTuple { tup with data := newData } = .ok new)
    (hroom : new.length ≤ page.header.pdUpper.toNat)
    (hfull : page.header.pdUpper.toNat - new.length <
      page.header.pdLower.toNat + linePointerSize)
    (h : Attempts heapMachine LogsRecord
      (updateTupleProgram relOid p page slot tup newData) db) :
    old.length + new.length + 12 ≤ db.wal.segmentSize.toNat := by
  obtain ⟨new', hnew', hnewLen⟩ := LawfulBincode.serialize_stamped db.wal.currentXid 0 hnew
  obtain ⟨old', hold', holdLen⟩ :=
    LawfulBincode.serialize_stamped tup.xmin db.wal.currentXid hold
  obtain ⟨_, bytes, _, _, hbytes, hcode⟩ := id hslot
  rw [hold] at hcode
  cases hcode
  have hhot : page.hotUpdate (UInt16.ofNat slot) new' = some (page, none) :=
    hotUpdate_full hpage.wellFormed hslot (by omega) (by omega)
  have hpage' := holds_restamp hpage trivial (stamps_true db.wal.currentXid).1 hbytes hold hold'
  have hreplace : replaceTuple page slot old' = some (page.setTuple slot old') :=
    if_pos hslot.lt.2
  obtain ⟨⟨page₃, used⟩, hadd⟩ : ∃ result, (page.setTuple slot old').addTuple new' =
      some result := addTuple_isSome (by simp only [HeapPage.setTuple]; omega)
  have hpage₃ := holds_addTuple hpage' (serializeTuple_ne_nil hnew') ⟨_, hnew', trivial⟩ hadd
  have hstored : ∀ db' : Database σ, ∃ db'', run heapMachine (storePage p page₃) db' =
      .ok () db'' ∧ db''.wal = db'.wal := by
    intro db'
    rw [run_storePage, writeHeapPage_ok (serialize_eq_image hpage₃.wellFormed)]
    exact ⟨_, rfl, rfl⟩
  -- the effects before the record, one after the other
  unfold updateTupleProgram at h
  let next : Database σ := { db with wal := { db.wal with currentXid := db.wal.currentXid + 1 } }
  have h₁ := h.bind_inv (show run heapMachine (effect .allocateXid) db = .ok db.wal.currentXid next
    from rfl)
  have h₂ := h₁.ofExcept_inv hnew'
  have h₃ := h₂.orPanic_inv hhot
  have h₄ := h₃.ofExcept_inv hold'
  have h₅ := h₄.orPanic_inv hreplace
  have h₆ := h₅.ofExcept_inv hnew'
  have h₇ := h₆.orPanic_inv hadd
  obtain ⟨db', hrun, hwal⟩ := hstored { db with
    wal := { db.wal with currentXid := db.wal.currentXid + 1 } }
  have h₈ := h₇.bind_inv hrun
  obtain ⟨data, hdata, hlen, -⟩ := h₈.1 _ rfl
  obtain ⟨data', hdata', hlen'⟩ := LawfulBincodeChanges.serialize_update relOid p hold' hnew'
  rw [hdata] at hdata'
  cases hdata'
  rw [hwal] at hlen
  have hsegment : data.length ≤ db.wal.segmentSize.toNat := hlen
  omega

end Overflow

section Rows

/-- The rows that a call writes fit on a heap page. -/
def RowsFitPage [Bincode] {σ : Type} [StorageTrait σ] (db : Database σ) : HeapCall → Prop
  | .insert _ values => ∀ encoded,
      serializeTuple (newTuple values db.wal.currentXid) = .ok encoded → encoded.length ≤ 8162
  | .update relOid columnIdx newValue filter =>
      ∀ rel, db.cache.rels.lookup relOid = some rel → ∀ p ∈ rel.pages,
        ∀ page, PageAt db.cache.disk.storage p page →
          ∀ entry ∈ tuplesToUpdate page rel.tupleDesc columnIdx newValue filter,
            ∀ encoded, serializeTuple { entry.2.1 with data := entry.2.2 } = .ok encoded →
              encoded.length ≤ 8162
  | .delete _ _ => True

def rowInsert (value : String) : HeapCall := .insert ⟨1⟩ ([value].map asBytes)

def rowUpdate (value : String) : HeapCall := .update ⟨1⟩ 0 (asBytes value) none

/-- The table with its first row. -/
def rowInserted (value : String) : Database EphemeralStorage :=
  last heapMachine (rowInsert value).program (freshDatabase [emptyTable])

/-- A table is created, a row is inserted and updated to the same value. -/
def rowRun (value : String) : List (Transition (Database EphemeralStorage) ServerEvent) :=
  [⟨freshDatabase [], .createTable emptyTable, freshDatabase [emptyTable]⟩,
    ⟨freshDatabase [emptyTable], .write (rowInsert value), rowInserted value⟩,
    ⟨rowInserted value, .write (rowUpdate value),
      last heapMachine (rowUpdate value).program (rowInserted value)⟩]

theorem rowRun_run (value : String) :
    Run ServerStep (freshDatabase []) (rowRun value)
      (last heapMachine (rowUpdate value).program (rowInserted value)) :=
  Run.cons ⟨rfl, rfl⟩ (Run.cons rfl (Run.cons rfl (Run.nil _)))

theorem serverStart_fresh : ServerStart (freshDatabase []) := ⟨rfl, rfl⟩

/-- What the run knows of the page with the row. -/
structure OneRow (value : String) (encoded : Bytes) (rel : Relation) : Prop where
  encoded_eq : serializeTuple (newTuple ([value].map asBytes) 1) = .ok encoded
  length_eq : encoded.length = 50 + (asBytes value).length
  registered : (rowInserted value).cache.rels.lookup ⟨1⟩ = some rel
  desc_eq : rel.tupleDesc = textColumn
  pages_eq : rel.pages = [⟨1⟩]
  held : Held (rowInserted value).cache.disk.storage ⟨1⟩ (appended (stored HeapPage.new) encoded)

theorem oneRow {value : String} (hnul : NulFree [value]) (hlen : (asBytes value).length ≤ 8112) :
    ∃ encoded rel, OneRow value encoded rel := by
  obtain ⟨encoded, hencoded, hsize⟩ :=
    serialize_oneValue hlen (freshDatabase [emptyTable]).wal.currentXid
  have hrow : Encodes textColumn encoded (fitRow 1 [value]) :=
    encodes_newTuple hnul (by decide) (by decide) hencoded
  have hwal : Ready (freshDatabase [emptyTable]).wal (0 + 1) := ready_new (by decide) (by decide)
  obtain ⟨db, hinsert, hfilled, _, _⟩ :=
    filled_insert_first filled_freshDatabase hencoded (by omega) hrow hwal
  have hlast : rowInserted value = db := by
    rw [← run_insert] at hinsert
    exact last_of_ok heapMachine hinsert
  obtain ⟨rel, hrel, hdesc, hpages⟩ := hfilled.registered
  have hheld : Held db.cache.disk.storage (pid 0) (appended (stored HeapPage.new) encoded) := by
    cases hfilled.held with
    | cons hpage _ => exact hpage
  refine ⟨encoded, rel, hencoded, hsize, ?_, hdesc, hpages, ?_⟩
  · rw [hlast]
    exact hrel
  · rw [hlast]
    exact hheld

section Page

variable {value : String} {encoded : Bytes} {rel : Relation}

theorem newTuple_data (value : String) (xid : UInt64) :
    (newTuple ([value].map asBytes) xid).data = asBytes value := by
  simp [newTuple]

theorem updated_oneValue (value : String) :
    { newTuple ([value].map asBytes) 1 with data := asBytes value } =
      newTuple ([value].map asBytes) 1 := by
  rw [← newTuple_data value 1]

/-- The page as the update reads it. -/
def rowPage (encoded : Bytes) : HeapPage := stored (appended (stored HeapPage.new) encoded)

theorem rowPage_tuples (h : OneRow value encoded rel) : (rowPage encoded).tuples = [encoded] := by
  have hnew : (stored HeapPage.new).tuples = [] := by decide
  have hnormal := allNormal_appended (allNormal_stored wellFormed_new allNormal_new) encoded
  rw [rowPage, stored_tuples h.held.wellFormed hnormal]
  simp only [appended, hnew, List.nil_append]

theorem rowPage_updates (h : OneRow value encoded rel) (hnul : NulFree [value]) :
    tuplesToUpdate (rowPage encoded) textColumn 0 (asBytes value) none =
      [(0, newTuple ([value].map asBytes) 1, asBytes value)] := by
  have hdecoded := LawfulBincode.deserialize_serialize h.encoded_eq
  have hmatching : matchingTuples (rowPage encoded) textColumn none =
      [(0, newTuple ([value].map asBytes) 1)] := by
    rw [matchingTuples, rowPage_tuples h]
    simp [hdecoded, writeFilter]
  have hbuilt : buildUpdatedData (asBytes value) 0 (asBytes value) = some (asBytes value) := by
    have hsplit : (asBytes value).splitOn 0 = [asBytes value] :=
      List.splitOn_eq_singleton (hnul value List.mem_cons_self)
    simp [buildUpdatedData, hsplit]
  rw [tuplesToUpdate, hmatching]
  simp only [List.filterMap_cons, newTuple_data, hbuilt, Option.map_some, List.filterMap_nil]

/-- The rows that the update works on. -/
theorem rowUpdate_entries (h : OneRow value encoded rel) (hnul : NulFree [value])
    {rel' : Relation} (hrel' : (rowInserted value).cache.rels.lookup ⟨1⟩ = some rel') {p : PageId}
    (hp : p ∈ rel'.pages) {page : HeapPage}
    (hpage : PageAt (rowInserted value).cache.disk.storage p page)
    {entry : Nat × Tuple × Bytes}
    (hentry : entry ∈ tuplesToUpdate page rel'.tupleDesc 0 (asBytes value) none) :
    entry = (0, newTuple ([value].map asBytes) 1, asBytes value) := by
  rw [h.registered] at hrel'
  cases hrel'
  rw [h.pages_eq, List.mem_singleton] at hp
  subst hp
  rw [pageAt_unique hpage h.held.pageAt, h.desc_eq] at hentry
  change entry ∈ tuplesToUpdate (rowPage encoded) textColumn 0 (asBytes value) none at hentry
  rw [rowPage_updates h hnul] at hentry
  exact List.mem_singleton.mp hentry

theorem rowInsert_fits (h : OneRow value encoded rel) (hlen : (asBytes value).length ≤ 8112) :
    ∀ encoded', serializeTuple (newTuple ([value].map asBytes)
      (freshDatabase [emptyTable]).wal.currentXid) = .ok encoded' → encoded'.length ≤ 8162 := by
  intro encoded' hencoded'
  have hsame := hencoded'.symm.trans h.encoded_eq
  cases hsame
  have hsize := h.length_eq
  omega

theorem segmentedDatabase_rowInserted (h : OneRow value encoded rel)
    (hlen : (asBytes value).length ≤ 8112) : SegmentedDatabase (rowInserted value) := by
  have hcreated : SegmentedDatabase (freshDatabase [emptyTable]) :=
    segmentedDatabase_createTable (segmentedDatabase_start serverStart_fresh) rfl
  have hfits : FitsLog (freshDatabase [emptyTable]) (rowInsert value) := rowInsert_fits h hlen
  exact (segmentedDatabase_call hcreated hfits).2

/-- The page with the row has room for a tuple that is as long, but not for a line
pointer besides. -/
theorem rowPage_bounds (h : OneRow value encoded rel) :
    (rowPage encoded).header.pdUpper.toNat = 8192 - encoded.length ∧
      (rowPage encoded).header.pdLower.toNat = 30 := by
  refine ⟨stored_appended_upper encoded, ?_⟩
  have hwell := wellFormed_stored h.held.wellFormed
  have hlower := hwell.lower_eq
  have hlength := hwell.length_eq
  change (rowPage encoded).tuples.length = _ at hlength
  rw [rowPage_tuples h, List.length_singleton] at hlength
  rw [← hlength] at hlower
  exact hlower

theorem rowUpdate_versions_le (h : OneRow value encoded rel) (hnul : NulFree [value])
    (hlen : (asBytes value).length ≤ 8112) (hroom : 2 * encoded.length ≤ 8192)
    (hfull : 8158 < 2 * encoded.length)
    (hlogs : Attempts heapMachine LogsRecord (rowUpdate value).program (rowInserted value)) :
    2 * encoded.length + 12 ≤ 8192 := by
  have hdb := segmentedDatabase_rowInserted h hlen
  have hupdates := rowPage_updates h hnul
  have hcoded := (hdb.pages _ _ h.registered).coded ⟨1⟩
    (by rw [h.pages_eq]; exact List.mem_cons_self)
  obtain ⟨page₀, hpage₀, hstored⟩ := holds_of_pageAt hcoded h.held.pageAt
  change rowPage encoded = stored page₀ at hstored
  have hmatches : (0, newTuple ([value].map asBytes) 1) ∈
      matchingTuples (stored page₀) textColumn none := by
    rw [← hstored]
    apply mem_tuplesToUpdate
    rw [hupdates]
    exact List.mem_cons_self
  obtain ⟨hslot, -⟩ := matchingTuples_holds hpage₀ hmatches
  have hpage := holds_stored hpage₀
  rw [← hstored] at hslot hpage
  obtain ⟨hupper, hlower⟩ := rowPage_bounds h
  have hrel : run heapMachine (relationState ⟨1⟩) (rowInserted value) =
      .ok rel (rowInserted value) := by
    rw [run_relationState]
    exact getRelationState_eq_ok.mpr ⟨h.registered, rfl⟩
  have hload : run heapMachine (loadPage ⟨1⟩) (rowInserted value) =
      .ok (rowPage encoded) (rowInserted value) := by
    rw [run_loadPage]
    exact readHeapPage_eq_ok.mpr ⟨h.held.pageAt, rfl⟩
  -- down to the update of the row
  have h₁ := hlogs.left.bind_inv hrel
  rw [h.pages_eq, h.desc_eq] at h₁
  have h₂ := (h₁.bind_inv hload).left
  rw [hupdates] at h₂
  have hnew := h.encoded_eq
  rw [← updated_oneValue value] at hnew
  have hsum := versions_le_of_logsRecord hpage hslot h.encoded_eq hnew (by omega)
    (by rw [hupper, hlower, linePointerSize]; omega) h₂.left
  rw [hdb.log.segmentSize_eq] at hsum
  omega

theorem rowUpdate_not_logged (hnul : NulFree [value]) (hlen : (asBytes value).length = 4044) :
    ¬Attempts heapMachine LogsRecord (rowUpdate value).program (rowInserted value) := by
  intro hlogs
  obtain ⟨encoded, rel, hrow⟩ := oneRow hnul (by omega)
  have hsize := hrow.length_eq
  have hsum := rowUpdate_versions_le hrow hnul (by omega) (by omega) (by omega) hlogs
  omega

/-- A property of the calls of the run. -/
theorem rowRun_calls {P : Database EphemeralStorage → HeapCall → Prop}
    (hinsert : P (freshDatabase [emptyTable]) (rowInsert value))
    (hupdate : P (rowInserted value) (rowUpdate value)) :
    ∀ tr ∈ rowRun value, ∀ call, tr.label = .write call → P tr.source call := by
  intro tr htr call hlabel
  simp only [rowRun, List.mem_cons, List.not_mem_nil, or_false] at htr
  rcases htr with rfl | rfl | rfl
  · cases hlabel
  · rw [← ServerEvent.write.inj hlabel]
    exact hinsert
  · rw [← ServerEvent.write.inj hlabel]
    dsimp only
    exact hupdate

theorem rowRun_rowsFitPage (hnul : NulFree [value]) (hlen : (asBytes value).length ≤ 8112) :
    ∀ tr ∈ rowRun value, ∀ call, tr.label = .write call → RowsFitPage tr.source call := by
  obtain ⟨encoded, rel, hrow⟩ := oneRow hnul hlen
  have hsize := hrow.length_eq
  refine rowRun_calls (rowInsert_fits hrow hlen) ?_
  intro rel' hrel' p hp page hpage entry hentry encoded' hencoded'
  rw [rowUpdate_entries hrow hnul hrel' hp hpage hentry, updated_oneValue,
    hrow.encoded_eq] at hencoded'
  cases hencoded'
  omega

theorem rowRun_fitsLog (hnul : NulFree [value]) (hlen : (asBytes value).length ≤ 4040) :
    ∀ tr ∈ rowRun value, ∀ call, tr.label = .write call → FitsLog tr.source call := by
  obtain ⟨encoded, rel, hrow⟩ := oneRow hnul (by omega)
  have hsize := hrow.length_eq
  refine rowRun_calls (rowInsert_fits hrow (by omega)) ?_
  intro rel' hrel' p hp page hpage entry hentry old new hold hnew
  have hentry' := rowUpdate_entries hrow hnul hrel' hp hpage hentry
  rw [hentry', hrow.encoded_eq] at hold
  rw [hentry', updated_oneValue, hrow.encoded_eq] at hnew
  cases hold
  cases hnew
  omega

end Page

/-- An update of a short row. -/
theorem heapRecords_fit_row : ServerStart (freshDatabase []) ∧
    ∀ tr ∈ rowRun "a", ∀ call, tr.label = .write call →
      Attempts heapMachine LogsRecord call.program tr.source := by
  have hbytes : asBytes "a" = [97] := asBytes_replicate 1 'a' 97 (by decide)
  have hnul : NulFree ["a"] := by
    intro value hvalue
    rw [List.mem_singleton.mp hvalue, hbytes]
    decide
  have hlen : (asBytes "a").length ≤ 4040 := by
    rw [hbytes]
    decide
  exact ⟨serverStart_fresh,
    heapRecords_fit serverStart_fresh (rowRun_run "a") (rowRun_fitsLog hnul hlen)⟩

/-- A value whose encoding takes up half a page. -/
def halfPageValue : String := String.ofList (List.replicate 4044 'x')

/-- Two versions that fit on a page do not fit into a record. -/
theorem heapRecords_overflow :
    ServerStart (freshDatabase []) ∧
      Run ServerStep (freshDatabase []) (rowRun halfPageValue)
        (last heapMachine (rowUpdate halfPageValue).program (rowInserted halfPageValue)) ∧
      (∀ tr ∈ rowRun halfPageValue, ∀ call, tr.label = .write call →
        RowsFitPage tr.source call) ∧
      ∃ tr ∈ rowRun halfPageValue, ∃ call, tr.label = .write call ∧
        ¬Attempts heapMachine LogsRecord call.program tr.source := by
  have hbytes : asBytes halfPageValue = List.replicate 4044 120 :=
    asBytes_replicate 4044 'x' 120 (by decide)
  have hlen : (asBytes halfPageValue).length = 4044 := by
    rw [hbytes, List.length_replicate]
  have hshort : (asBytes halfPageValue).length ≤ 8112 := by
    rw [hlen]
    decide
  have hnul : NulFree [halfPageValue] := by
    intro value hvalue
    rw [List.mem_singleton.mp hvalue, hbytes, List.mem_replicate]
    decide
  have hlogs := rowUpdate_not_logged hnul hlen
  refine ⟨serverStart_fresh, rowRun_run halfPageValue, rowRun_rowsFitPage hnul hshort, ?_⟩
  refine ⟨⟨rowInserted halfPageValue, .write (rowUpdate halfPageValue), _⟩,
    List.mem_cons_of_mem _ (List.mem_cons_of_mem _ List.mem_cons_self), rowUpdate halfPageValue,
    rfl, ?_⟩
  dsimp only
  exact hlogs

end Rows

end PostgressRs.Executor.RecordSizes
