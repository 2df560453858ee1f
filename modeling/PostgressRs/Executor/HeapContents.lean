import PostgressRs.BufferCache.PinnedPool
import PostgressRs.Executor.HeapSteps
import PostgressRs.Storage.PageContents

/-!
What inserts, updates, deletes and vacuum keep of the pages on disk: every page
stays well formed, and every tuple in a normal slot stays an encoding of a tuple
with a property `P` that the stamping of tuples respects.
-/

namespace PostgressRs.Executor.HeapContents

open PostgressRs.BufferCache.PagePool
open PostgressRs.BufferCache.PinnedPool
open PostgressRs.BufferCache.SharedCache
open PostgressRs.Executor.HeapAccess
open PostgressRs.Executor.HeapSteps
open PostgressRs.Lib.ByteBuffer
open PostgressRs.Lib.Procedure
open PostgressRs.Storage.PageContents
open PostgressRs.Storage.PageRoundTrip
open PostgressRs.Storage.PageStore
open PostgressRs.Storage.SlottedPage
open PostgressRs.Types
open PostgressRs.Wal.LogRecord
open PostgressRs.Wal.WriteAheadLog

section Encodings

variable [Bincode]

/-- An encoding of a tuple that satisfies `P`. -/
def Coded (P : Tuple → Prop) (bytes : Bytes) : Prop :=
  ∃ tup, serializeTuple tup = .ok bytes ∧ P tup

/-- `P` survives the stamping of a tuple with its deleter `xid`. -/
def Expires (P : Tuple → Prop) (xid : UInt64) : Prop :=
  ∀ tup, P tup → P { tup with xmax := xid }

/-- `P` survives the stamping of a tuple with `xid`, as its deleter or as the
creator of its next version. -/
def Stamps (P : Tuple → Prop) (xid : UInt64) : Prop :=
  Expires P xid ∧ ∀ tup, P tup → ∀ data, P { tup with xmin := xid, xmax := 0, data := data }

omit [Bincode] in
theorem stamps_true (xid : UInt64) : Stamps (fun _ => True) xid :=
  ⟨fun _ _ => trivial, fun _ _ _ => trivial⟩

/-- Slot `slot` is normal and holds `tup`. -/
def SlotHolds (page : HeapPage) (slot : Nat) (tup : Tuple) : Prop :=
  ∃ lp bytes, page.linePointers[slot]? = some lp ∧ lp.lpFlags = lpNormal ∧
    page.tuples[slot]? = some bytes ∧ serializeTuple tup = .ok bytes

/-- What was read is a page whose normal slot `slot` holds `tup`. -/
def SlotIn (data : Except String Bytes) (slot : Nat) (tup : Tuple) : Prop :=
  ∃ page, WellFormed page ∧ data = .ok (image page) ∧ SlotHolds (stored page) slot tup

variable {P : Tuple → Prop} {page page' : HeapPage} {slot : Nat} {tup : Tuple}

theorem SlotHolds.lt (h : SlotHolds page slot tup) :
    slot < page.linePointers.length ∧ slot < page.tuples.length := by
  obtain ⟨lp, bytes, hlp, _, hbytes, _⟩ := h
  exact ⟨(List.getElem?_eq_some_iff.mp hlp).1, (List.getElem?_eq_some_iff.mp hbytes).1⟩

theorem slotHolds_of_eq (h : SlotHolds page slot tup)
    (hlp : page'.linePointers[slot]? = page.linePointers[slot]?)
    (htuple : page'.tuples[slot]? = page.tuples[slot]?) : SlotHolds page' slot tup := by
  unfold SlotHolds at h ⊢
  rw [hlp, htuple]
  exact h

theorem slotHolds_addTuple {bytes : Bytes} {used : Option UInt16} (hpage : WellFormed page)
    (hslot : SlotHolds page slot tup) (h : page.addTuple bytes = some (page', used)) :
    SlotHolds page' slot tup := by
  obtain ⟨hltLp, hltTuple⟩ := hslot.lt
  obtain ⟨-, ⟨rfl, -, -⟩ | ⟨i, hfind, -, -, rfl⟩ | ⟨-, -, -, rfl⟩⟩ := addTuple_cases h
  · exact hslot
  · -- the reused slot is dead, so it is another one
    obtain ⟨hi, hdead, _⟩ := List.findIdx?_eq_some_iff_getElem.mp hfind
    have hsize := linePointers_lt hpage
    have hval : (UInt16.ofNat i).toNat = i := by
      rw [UInt16.toNat_ofNat']
      exact Nat.mod_eq_of_lt (by omega)
    have hne : i ≠ slot := by
      rintro rfl
      obtain ⟨lp, _, hlp, hnormal, _⟩ := hslot
      rw [List.getElem?_eq_getElem hi] at hlp
      cases hlp
      simp only [decide_eq_true_eq, hnormal] at hdead
      exact lpDead_ne_lpNormal hdead.symm
    refine slotHolds_of_eq hslot ?_ ?_
    · rw [hval, List.getElem?_set_ne hne]
    · rw [hval, List.getElem?_set_ne hne]
  · exact slotHolds_of_eq hslot (List.getElem?_append_left hltLp)
      (List.getElem?_append_left hltTuple)

theorem slotHolds_hotUpdate {bytes : Bytes} {old : UInt16} {used : Option UInt16}
    (hslot : SlotHolds page slot tup) (hne : old.toNat ≠ slot)
    (h : page.hotUpdate old bytes = some (page', used)) : SlotHolds page' slot tup := by
  obtain ⟨hltLp, hltTuple⟩ := hslot.lt
  obtain ⟨rfl, -⟩ | ⟨lp, -, -, -, -, -, rfl⟩ := hotUpdate_cases h
  · exact hslot
  · refine slotHolds_of_eq hslot ?_ (List.getElem?_append_left hltTuple)
    rw [List.getElem?_set_ne hne, List.getElem?_append_left hltLp]

theorem slotHolds_setTuple {i : Nat} (bytes : Bytes) (hslot : SlotHolds page slot tup)
    (hne : i ≠ slot) : SlotHolds (page.setTuple i bytes) slot tup :=
  slotHolds_of_eq hslot rfl (List.getElem?_set_ne hne)

theorem slotHolds_stored (hpage : WellFormed page) (h : SlotHolds page slot tup) :
    SlotHolds (stored page) slot tup := by
  obtain ⟨lp, bytes, hlp, hnormal, hbytes, hcode⟩ := h
  have hflags := relocate_getElem?_flags page.linePointers page.tuples pageSize slot
    hpage.length_eq
  rw [hlp] at hflags
  obtain ⟨lp', hlp', heq⟩ := Option.map_eq_some_iff.mp hflags
  refine ⟨lp', bytes, hlp', heq.trans hnormal, ?_, hcode⟩
  exact (restored_getElem? hpage.length_eq hlp hnormal).trans hbytes

theorem slotHolds_of_stored (hpage : WellFormed page) (h : SlotHolds (stored page) slot tup) :
    SlotHolds page slot tup := by
  obtain ⟨lp', bytes, hlp', hnormal, hbytes, hcode⟩ := h
  have hflags := relocate_getElem?_flags page.linePointers page.tuples pageSize slot
    hpage.length_eq
  have hsome : (stored page).linePointers[slot]?.map LinePointer.lpFlags = some lpNormal := by
    rw [hlp', Option.map_some, hnormal]
  obtain ⟨lp, hlp, heq⟩ := Option.map_eq_some_iff.mp (hflags.symm.trans hsome)
  exact ⟨lp, bytes, hlp, heq, (restored_getElem? hpage.length_eq hlp heq).symm.trans hbytes, hcode⟩

theorem slotHolds_of_slotIn (hpage : WellFormed page)
    (h : SlotIn (.ok (image page)) slot tup) : SlotHolds (stored page) slot tup := by
  obtain ⟨page', hpage', heq, hslot⟩ := h
  have hsame := deserialize_image hpage'
  rw [← Except.ok.inj heq, deserialize_image hpage] at hsame
  rw [Option.some.inj hsame]
  exact hslot

variable [LawfulBincode]

theorem SlotHolds.unique {tup' : Tuple} (h : SlotHolds page slot tup)
    (h' : SlotHolds page slot tup') : tup = tup' := by
  obtain ⟨_, bytes, _, _, hbytes, hcode⟩ := h
  obtain ⟨_, bytes', _, _, hbytes', hcode'⟩ := h'
  rw [hbytes] at hbytes'
  cases hbytes'
  have hdecoded := LawfulBincode.deserialize_serialize hcode
  rw [LawfulBincode.deserialize_serialize hcode'] at hdecoded
  exact (Except.ok.inj hdecoded).symm

/-- A tuple decoded from a page that came back from storage sits in a normal
slot. -/
theorem slotHolds_of_decoded {bytes : Bytes} (hpage : Holds (Coded P) page)
    (hbytes : (stored page).tuples[slot]? = some bytes)
    (hdecoded : deserializeTuple bytes = .ok tup) : SlotHolds (stored page) slot tup ∧ P tup := by
  have hne : bytes ≠ [] := by
    rintro rfl
    obtain ⟨e, hnil⟩ := LawfulBincode.deserialize_nil
    rw [hnil] at hdecoded
    cases hdecoded
  obtain ⟨lp, hlp, hnormal, htuple⟩ := normal_of_restored hbytes hne
  obtain ⟨tup', hcode, hP⟩ := hpage.normal slot lp bytes hlp htuple hnormal
  have hdecoded' := LawfulBincode.deserialize_serialize hcode
  rw [hdecoded] at hdecoded'
  cases hdecoded'
  exact ⟨slotHolds_stored hpage.wellFormed ⟨lp, bytes, hlp, hnormal, htuple, hcode⟩, hP⟩

/-- The tuples an update or a delete finds on a page, by slot. -/
theorem matchingTuples_holds {desc : TupleDesc} {filter : Option Filter}
    (hpage : Holds (Coded P) page) {entry : Nat × Tuple}
    (h : entry ∈ matchingTuples (stored page) desc filter) :
    SlotHolds (stored page) entry.1 entry.2 ∧ P entry.2 := by
  obtain ⟨⟨bytes, slot⟩, hmem, hentry⟩ := List.mem_filterMap.mp h
  have hbytes : (stored page).tuples[slot]? = some bytes :=
    List.mem_zipIdx_iff_getElem?.mp hmem
  cases hdecoded : deserializeTuple bytes with
  | error e => simp [hdecoded] at hentry
  | ok tup =>
      simp only [hdecoded] at hentry
      split at hentry
      · cases hentry
        exact slotHolds_of_decoded hpage hbytes hdecoded
      · cases hentry

end Encodings

section Matching

theorem map_filterMap_sublist {α β γ : Type} {f : α → Option β} {g : β → γ} {k : α → γ}
    (h : ∀ a b, f a = some b → g b = k a) (l : List α) :
    ((l.filterMap f).map g).Sublist (l.map k) := by
  induction l with
  | nil => exact List.Sublist.refl _
  | cons a l ih =>
      rw [List.map_cons, List.filterMap_cons]
      cases hf : f a with
      | none => exact ih.cons _
      | some b =>
          rw [List.map_cons, h a b hf]
          exact ih.cons_cons _

variable [Bincode]

theorem matchingTuples_nodup (page : HeapPage) (desc : TupleDesc) (filter : Option Filter) :
    ((matchingTuples page desc filter).map Prod.fst).Nodup := by
  have hslots : (page.tuples.zipIdx.map Prod.snd).Nodup := by
    rw [List.zipIdx_map_snd]
    exact List.nodup_range'
  refine hslots.sublist (map_filterMap_sublist ?_ _)
  rintro ⟨bytes, slot⟩ entry hentry
  simp only at hentry
  split at hentry
  · split at hentry
    · cases hentry
      rfl
    · cases hentry
  · cases hentry

theorem tuplesToUpdate_nodup (page : HeapPage) (desc : TupleDesc) (columnIdx : Nat)
    (newValue : Bytes) (filter : Option Filter) :
    ((tuplesToUpdate page desc columnIdx newValue filter).map Prod.fst).Nodup := by
  refine (matchingTuples_nodup page desc filter).sublist (map_filterMap_sublist ?_ _)
  rintro ⟨slot, tup⟩ entry hentry
  obtain ⟨data, _, rfl⟩ := Option.map_eq_some_iff.mp hentry
  rfl

theorem mem_tuplesToUpdate {page : HeapPage} {desc : TupleDesc} {columnIdx : Nat}
    {newValue : Bytes} {filter : Option Filter} {slot : Nat} {tup : Tuple} {data : Bytes}
    (h : (slot, tup, data) ∈ tuplesToUpdate page desc columnIdx newValue filter) :
    (slot, tup) ∈ matchingTuples page desc filter := by
  obtain ⟨⟨slot', tup'⟩, hmem, hentry⟩ := List.mem_filterMap.mp h
  obtain ⟨data', _, heq⟩ := Option.map_eq_some_iff.mp hentry
  cases heq
  exact hmem

end Matching

section Writes

variable [Bincode] {σ : Type} [StorageTrait σ]

/-- Page `p` was written as a page of encodings of tuples that satisfy `P`. -/
def CodedAt (P : Tuple → Prop) (storage : σ) (p : PageId) : Prop :=
  ∃ page, Holds (Coded P) page ∧ readPage storage p = .ok (image page)

theorem CodedAt.pageAt {P : Tuple → Prop} {storage : σ} {p : PageId} (h : CodedAt P storage p) :
    ∃ page, Holds (Coded P) page ∧ PageAt storage p (stored page) := by
  obtain ⟨page, hpage, hread⟩ := h
  exact ⟨page, hpage, image page, hread, deserialize_image hpage.wellFormed⟩

/-- Only pages in `touched` were written, and with pages of encodings. -/
structure Rewrites (P : Tuple → Prop) (touched : PageId → Prop) (db db' : Database σ) : Prop where
  rels_eq : db'.cache.rels = db.cache.rels
  pool_eq : db'.cache.disk.pool = db.cache.disk.pool
  coded : ∀ q, CodedAt P db.cache.disk.storage q → CodedAt P db'.cache.disk.storage q
  untouched : ∀ q, ¬touched q →
    readPage db'.cache.disk.storage q = readPage db.cache.disk.storage q

/-- Tuples stay in their slots, at most with a deleter from `W`. -/
def Restamps (W : UInt64 → Prop) (db db' : Database σ) : Prop :=
  ∀ q slot tup, SlotIn (readPage db.cache.disk.storage q) slot tup →
    ∃ x, (x = tup.xmax ∨ W x) ∧
      SlotIn (readPage db'.cache.disk.storage q) slot { tup with xmax := x }

/-- Every tuple on disk is on the page in memory. -/
def InSync (db : Database σ) (p : PageId) (page : HeapPage) : Prop :=
  ∀ slot tup, SlotIn (readPage db.cache.disk.storage p) slot tup → SlotHolds page slot tup

/-- A delete finds a tuple on the page. -/
def DeletesOn (storage : σ) (desc : TupleDesc) (filter : Option Filter) (p : PageId) : Prop :=
  ∃ page, PageAt storage p page ∧ matchingTuples page desc filter ≠ []

/-- An update finds a tuple to replace on the page. -/
def UpdatesOn (storage : σ) (desc : TupleDesc) (columnIdx : Nat) (newValue : Bytes)
    (filter : Option Filter) (p : PageId) : Prop :=
  ∃ page, PageAt storage p page ∧ tuplesToUpdate page desc columnIdx newValue filter ≠ []

/-- How many tuples a statement works on, `work page` of them on each page. -/
def tupleCount (storage : σ) (work : HeapPage → Nat) (ids : List PageId) : Nat :=
  (ids.map fun q => ((pageOf storage q).map work).getD 0).sum

variable {P : Tuple → Prop} {touched : PageId → Prop} {db₀ db db' : Database σ} {p : PageId}

theorem rewrites_refl (P : Tuple → Prop) (touched : PageId → Prop) (db : Database σ) :
    Rewrites P touched db db :=
  ⟨rfl, rfl, fun _ h => h, fun _ _ => rfl⟩

theorem Rewrites.trans (h : Rewrites P touched db₀ db) (h' : Rewrites P touched db db') :
    Rewrites P touched db₀ db' :=
  ⟨h'.rels_eq.trans h.rels_eq, h'.pool_eq.trans h.pool_eq, fun q hq => h'.coded q (h.coded q hq),
    fun q hq => (h'.untouched q hq).trans (h.untouched q hq)⟩

theorem restamps_refl (W : UInt64 → Prop) (db : Database σ) : Restamps W db db :=
  fun _ _ tup h => ⟨tup.xmax, Or.inl rfl, h⟩

theorem Restamps.trans {W : UInt64 → Prop} (h : Restamps W db₀ db) (h' : Restamps W db db') :
    Restamps W db₀ db' := by
  intro q slot tup hslot
  obtain ⟨x, hx, hslot'⟩ := h q slot tup hslot
  obtain ⟨x', hx', hslot''⟩ := h' q slot _ hslot'
  refine ⟨x', ?_, hslot''⟩
  rcases hx' with rfl | hx'
  · exact hx
  · exact Or.inr hx'

theorem Rewrites.mono {touched' : PageId → Prop} (h : Rewrites P touched db db')
    (hsub : ∀ q, touched q → touched' q) : Rewrites P touched' db db' :=
  ⟨h.rels_eq, h.pool_eq, h.coded, fun q hq => h.untouched q fun hmem => hq (hsub q hmem)⟩

theorem Rewrites.of_cache (h : Rewrites P touched db₀ db) (hcache : db'.cache = db.cache) :
    Rewrites P touched db₀ db' := by
  refine ⟨?_, ?_, ?_, ?_⟩
  · rw [hcache]
    exact h.rels_eq
  · rw [hcache]
    exact h.pool_eq
  · rw [hcache]
    exact h.coded
  · rw [hcache]
    exact h.untouched

omit [StorageTrait σ] in
theorem keeps_onWal_append (record : WALRecord) :
    Keeps (fun db db' : Database σ => db'.cache = db.cache ∧ SameXid db.wal db'.wal)
      (onWal (append record)) :=
  keeps_within (keeps_append record) fun _ _ h => ⟨rfl, h⟩

omit [StorageTrait σ] in
theorem ensures_append_bind {α : Type} {record : WALRecord} {a : α}
    {Q : α → Database σ → Prop} {E : Database σ → Prop}
    (hQ : ∀ db', db'.cache = db.cache → db'.wal.currentXid = db.wal.currentXid → Q a db')
    (hE : ∀ db', db'.cache = db.cache → E db') :
    Ensures (onWal (append record) >>= fun _ => pure a) db Q E := by
  refine ensures_bind (Q := fun _ db' => Q a db') ?_ fun _ _ h => ensures_pure h
  exact ensures_of_keeps (keeps_onWal_append record) (fun _ db' h => hQ db' h.1 h.2)
    fun db' h => hE db' h.1

variable [LawfulStorage σ]

theorem rewrites_write {page : HeapPage} (hR : Rewrites P touched db₀ db) (hp : touched p)
    (hpage : Holds (Coded P) page) (wal : WAL) :
    Rewrites P touched db₀
      { cache := withStorage db.cache (writePage db.cache.disk.storage p (image page)).2
        wal := wal } := by
  refine ⟨hR.rels_eq, hR.pool_eq, ?_, ?_⟩
  · intro q hq
    by_cases hqp : q = p
    · subst hqp
      exact ⟨page, hpage, LawfulStorage.read_write_self _ _ _⟩
    · obtain ⟨page', hpage', hread⟩ := hR.coded q hq
      exact ⟨page', hpage', (LawfulStorage.read_write_of_ne _ _ _ _ hqp).trans hread⟩
  · intro q hq
    have hqp : q ≠ p := by
      rintro rfl
      exact hq hp
    exact (LawfulStorage.read_write_of_ne _ _ _ _ hqp).trans (hR.untouched q hq)

section Tuples

variable [LawfulBincode] {page : HeapPage} {slot : Nat} {tup : Tuple}

omit [StorageTrait σ] [LawfulStorage σ] in
/-- Restamping the deleter of a slot's tuple in place. -/
theorem holds_restamp (hpage : Holds (Coded P) page) {old encoded : Bytes} {tup : Tuple}
    (hP : P tup) {xid : UInt64} (hexpires : Expires P xid) (hold : page.tuples[slot]? = some old)
    (hcode : serializeTuple tup = .ok old)
    (hencoded : serializeTuple { tup with xmax := xid } = .ok encoded) :
    Holds (Coded P) (page.setTuple slot encoded) := by
  obtain ⟨encoded', hencoded', hlen⟩ := LawfulBincode.serialize_stamped tup.xmin xid hcode
  rw [hencoded] at hencoded'
  cases hencoded'
  exact holds_setTuple hpage hold hlen ⟨_, hencoded, hexpires tup hP⟩

theorem deleteTuple_ensures (relOid : Oid) {W : UInt64 → Prop}
    (hR : Rewrites P (· = p) db₀ db) (hW : Restamps W db₀ db) (hsync : InSync db p page)
    (hpage : Holds (Coded P) page) (hslot : SlotHolds page slot tup) (hP : P tup)
    (hexpires : Expires P db.wal.currentXid) (hxid : W db.wal.currentXid) :
    Ensures (deleteTuple relOid p page slot tup) db
      (fun page' db' => (Rewrites P (· = p) db₀ db' ∧ Restamps W db₀ db' ∧ InSync db' p page' ∧
          Holds (Coded P) page') ∧
        db'.wal.currentXid = db.wal.currentXid + 1 ∧
        ∀ slot' tup', slot' ≠ slot → SlotHolds page slot' tup' → SlotHolds page' slot' tup')
      (fun db' => Rewrites P (· = p) db₀ db' ∧ Restamps W db₀ db') := by
  obtain ⟨lp, old, hlp, hnormal, hold, hcode⟩ := id hslot
  apply ensures_ok_bind (allocateXid_apply db)
  have hR₁ := @Rewrites.of_cache _ _ _ _ _ _ _ { db with
    wal := { db.wal with currentXid := db.wal.currentXid + 1 } } hR rfl
  apply ensures_ofExcept_bind ⟨hR₁, hW⟩
  intro encoded hencoded
  apply ensures_orPanic_bind
  intro page' hreplace
  have hpage' : Holds (Coded P) (page.setTuple slot encoded) :=
    holds_restamp hpage hP hexpires hold hcode hencoded
  have hothers : ∀ slot' tup', slot' ≠ slot → SlotHolds page slot' tup' →
      SlotHolds (page.setTuple slot encoded) slot' tup' :=
    fun slot' tup' hne hslot' => slotHolds_setTuple encoded hslot' (Ne.symm hne)
  have hself : SlotHolds (page.setTuple slot encoded) slot
      { tup with xmax := db.wal.currentXid } :=
    ⟨lp, encoded, hlp, hnormal, List.getElem?_set_self hslot.lt.2, hencoded⟩
  unfold replaceTuple at hreplace
  split at hreplace
  · cases hreplace
    apply ensures_ok_bind (writeHeapPage_ok (serialize_eq_image hpage'.wellFormed))
    have hR₂ := rewrites_write hR₁ rfl hpage' { db.wal with currentXid := db.wal.currentXid + 1 }
    set written : SharedBufferCache σ := withStorage db.cache (writePage db.cache.disk.storage p
      (image (page.setTuple slot encoded))).2 with hwritten
    have hread : readPage written.disk.storage p = .ok (image (page.setTuple slot encoded)) :=
      LawfulStorage.read_write_self _ _ _
    -- the slot that was stamped, the other slots of its page, and other pages
    have hW₂ : ∀ db' : Database σ, db'.cache = written → Restamps W db db' := by
      intro db' hcache q slot' tup' hslot'
      rw [hcache]
      by_cases hq : q = p
      · subst hq
        have hmemory := hsync slot' tup' hslot'
        rw [hread]
        by_cases hslots : slot' = slot
        · subst hslots
          obtain rfl := hslot.unique hmemory
          exact ⟨_, Or.inr hxid, _, hpage'.wellFormed, rfl,
            slotHolds_stored hpage'.wellFormed hself⟩
        · exact ⟨tup'.xmax, Or.inl rfl, _, hpage'.wellFormed, rfl,
            slotHolds_stored hpage'.wellFormed (hothers slot' tup' hslots hmemory)⟩
      · refine ⟨tup'.xmax, Or.inl rfl, ?_⟩
        rw [hwritten]
        simp only [withStorage, LawfulStorage.read_write_of_ne _ _ _ _ hq]
        exact hslot'
    have hsync₂ : ∀ db' : Database σ, db'.cache = written →
        InSync db' p (page.setTuple slot encoded) := by
      intro db' hcache slot' tup' hslot'
      rw [hcache, hread] at hslot'
      exact slotHolds_of_stored hpage'.wellFormed (slotHolds_of_slotIn hpage'.wellFormed hslot')
    apply ensures_append_bind
    · intro db' hcache hxid'
      exact ⟨⟨hR₂.of_cache hcache, hW.trans (hW₂ db' hcache), hsync₂ db' hcache, hpage'⟩, hxid',
        hothers⟩
    · intro db' hcache
      exact ⟨hR₂.of_cache hcache, hW.trans (hW₂ db' hcache)⟩
  · cases hreplace

theorem updateTuple_ensures (relOid : Oid) (newData : Bytes) (hR : Rewrites P (· = p) db₀ db)
    (hpage : Holds (Coded P) page) (hslot : SlotHolds page slot tup) (hP : P tup)
    (hstamps : Stamps P db.wal.currentXid) :
    Ensures (updateTuple relOid p page slot tup newData) db
      (fun page' db' => (Rewrites P (· = p) db₀ db' ∧ Holds (Coded P) page') ∧
        db'.wal.currentXid = db.wal.currentXid + 1 ∧
        ∀ slot' tup', slot' ≠ slot → SlotHolds page slot' tup' → SlotHolds page' slot' tup')
      (Rewrites P (· = p) db₀) := by
  obtain ⟨hltLp, hltTuple⟩ := hslot.lt
  obtain ⟨_, old, _, _, hold, hcode⟩ := hslot
  have hval : (UInt16.ofNat slot).toNat = slot := by
    rw [UInt16.toNat_ofNat']
    exact Nat.mod_eq_of_lt (by have := linePointers_lt hpage.wellFormed; omega)
  apply ensures_ok_bind (allocateXid_apply db)
  have hR₁ := @Rewrites.of_cache _ _ _ _ _ _ _ { db with
    wal := { db.wal with currentXid := db.wal.currentXid + 1 } } hR rfl
  apply ensures_ofExcept_bind hR₁
  intro newEncoded hnew
  have hnewCoded : Coded P newEncoded := ⟨_, hnew, hstamps.2 tup hP newData⟩
  have hnewNe := serializeTuple_ne_nil hnew
  apply ensures_orPanic_bind
  rintro ⟨page₁, hotSlot⟩ hhot
  have hpage₁ := holds_hotUpdate hpage hnewNe hnewCoded hhot
  apply ensures_ofExcept_bind hR₁
  intro oldEncoded holdEncoded
  have hold₁ : page₁.tuples[slot]? = some old := (hotUpdate_getElem? hhot hltTuple).trans hold
  have hpage₂ : Holds (Coded P) (page₁.setTuple slot oldEncoded) :=
    holds_restamp hpage₁ hP hstamps.1 hold₁ hcode holdEncoded
  have hothers : ∀ slot' tup', slot' ≠ slot → SlotHolds page slot' tup' →
      SlotHolds (page₁.setTuple slot oldEncoded) slot' tup' := by
    intro slot' tup' hne hslot'
    apply slotHolds_setTuple oldEncoded _ (Ne.symm hne)
    exact slotHolds_hotUpdate hslot' (by rw [hval]; exact Ne.symm hne) hhot
  apply ensures_orPanic_bind
  intro page₂ hreplace
  unfold replaceTuple at hreplace
  split at hreplace
  · cases hreplace
    cases hotSlot with
    | some newSlot =>
        apply ensures_ok_bind (writeHeapPage_ok (serialize_eq_image hpage₂.wellFormed))
        have hR₂ := rewrites_write hR₁ rfl hpage₂
          { db.wal with currentXid := db.wal.currentXid + 1 }
        apply ensures_orPanic_bind
        intro newBytes _
        apply ensures_ofExcept_bind hR₂
        intro newTup _
        apply ensures_append_bind
        · intro db' hcache hxid
          exact ⟨⟨hR₂.of_cache hcache, hpage₂⟩, hxid, hothers⟩
        · intro db' hcache
          exact hR₂.of_cache hcache
    | none =>
        apply ensures_ofExcept_bind hR₁
        intro newEncoded' hnew'
        rw [hnew] at hnew'
        cases hnew'
        apply ensures_orPanic_bind
        rintro ⟨page₃, used⟩ hadd
        have hpage₃ := holds_addTuple hpage₂ hnewNe hnewCoded hadd
        apply ensures_ok_bind (writeHeapPage_ok (serialize_eq_image hpage₃.wellFormed))
        have hR₂ := rewrites_write hR₁ rfl hpage₃
          { db.wal with currentXid := db.wal.currentXid + 1 }
        apply ensures_append_bind
        · intro db' hcache hxid
          refine ⟨⟨hR₂.of_cache hcache, hpage₃⟩, hxid, ?_⟩
          intro slot' tup' hne hslot'
          exact slotHolds_addTuple hpage₂.wellFormed (hothers slot' tup' hne hslot') hadd
        · intro db' hcache
          exact hR₂.of_cache hcache
  · cases hreplace

omit [StorageTrait σ] [LawfulStorage σ] [LawfulBincode] in
/-- The loop over a page's tuples that updates and deletes share: a slot that was
not yet reached still holds its tuple. -/
theorem tuples_ensures {ε : Type} {loop : List ε → HeapPage → Proc (Database σ) Unit}
    (body : ε → HeapPage → Proc (Database σ) HeapPage) (slotAt : ε → Nat) (tupleAt : ε → Tuple)
    (hnil : ∀ page, loop [] page = pure ())
    (hcons : ∀ entry rest page, loop (entry :: rest) page = body entry page >>= loop rest)
    (Inv : HeapPage → Database σ → Prop) (Good : UInt64 → Prop) {E : Database σ → Prop}
    (hbody : ∀ entry page db, Inv page db → SlotHolds page (slotAt entry) (tupleAt entry) →
      P (tupleAt entry) → Good db.wal.currentXid →
      Ensures (body entry page) db
        (fun page' db' => Inv page' db' ∧ db'.wal.currentXid = db.wal.currentXid + 1 ∧
          ∀ slot tup, slot ≠ slotAt entry → SlotHolds page slot tup → SlotHolds page' slot tup)
        E)
    {work : List ε} (hinv : Inv page db)
    (hwork : ∀ entry ∈ work, SlotHolds page (slotAt entry) (tupleAt entry) ∧ P (tupleAt entry))
    (hnodup : (work.map slotAt).Nodup)
    (hstamps : ∀ j < work.length, Good (db.wal.currentXid + UInt64.ofNat j)) :
    Ensures (loop work page) db
      (fun _ db' => (∃ page', Inv page' db') ∧
        db'.wal.currentXid = db.wal.currentXid + UInt64.ofNat work.length) E := by
  induction work generalizing page db with
  | nil =>
      rw [hnil]
      exact ⟨⟨page, hinv⟩, (UInt64.add_zero _).symm⟩
  | cons entry work ih =>
      obtain ⟨hnot, hnodup⟩ := List.nodup_cons.mp hnodup
      obtain ⟨hslot, hP⟩ := hwork entry List.mem_cons_self
      have hfirst : Good db.wal.currentXid := by
        simpa using hstamps 0 (Nat.succ_pos _)
      rw [hcons]
      refine ensures_bind (hbody entry page db hinv hslot hP hfirst) ?_
      rintro page' db' ⟨hinv', hxid, hothers⟩
      have hrest := ih hinv' ?_ hnodup ?_
      · rw [hxid, UInt64.add_assoc] at hrest
        rw [List.length_cons, Nat.add_comm, UInt64.ofNat_add]
        exact hrest
      · intro other hother
        obtain ⟨hslot', hP'⟩ := hwork other (List.mem_cons_of_mem _ hother)
        refine ⟨hothers _ _ ?_ hslot', hP'⟩
        intro heq
        exact hnot (List.mem_map.mpr ⟨other, hother, heq⟩)
      · intro j hj
        have hnext := hstamps (1 + j) (by rw [List.length_cons]; omega)
        rw [UInt64.ofNat_add, ← UInt64.add_assoc] at hnext
        rw [hxid]
        exact hnext

theorem deleteTuples_ensures (relOid : Oid) {W : UInt64 → Prop} {work : List (Nat × Tuple)}
    (hsync : InSync db p page) (hpage : Holds (Coded P) page)
    (hwork : ∀ entry ∈ work, SlotHolds page entry.1 entry.2 ∧ P entry.2)
    (hnodup : (work.map Prod.fst).Nodup)
    (hstamps : ∀ j < work.length, Expires P (db.wal.currentXid + UInt64.ofNat j) ∧
      W (db.wal.currentXid + UInt64.ofNat j)) :
    Ensures (deleteTuples relOid p work page) db
      (fun _ db' => (Rewrites P (· = p) db db' ∧ Restamps W db db') ∧
        db'.wal.currentXid = db.wal.currentXid + UInt64.ofNat work.length)
      (fun db' => Rewrites P (· = p) db db' ∧ Restamps W db db') := by
  refine (tuples_ensures (fun entry page => deleteTuple relOid p page entry.1 entry.2) Prod.fst
    Prod.snd (fun _ => rfl) (fun _ _ _ => rfl)
    (fun page' db' => Rewrites P (· = p) db db' ∧ Restamps W db db' ∧ InSync db' p page' ∧
      Holds (Coded P) page')
    (fun xid => Expires P xid ∧ W xid) ?_ ⟨rewrites_refl P _ db, restamps_refl W db, hsync,
      hpage⟩ hwork hnodup hstamps).imp ?_ fun _ h => h
  · rintro entry page db' ⟨hR, hW, hsync, hpage⟩ hslot hP ⟨hexpires, hxid⟩
    exact deleteTuple_ensures relOid hR hW hsync hpage hslot hP hexpires hxid
  · rintro _ db' ⟨⟨page', hR, hW, -⟩, hxid⟩
    exact ⟨⟨hR, hW⟩, hxid⟩

theorem updateTuples_ensures (relOid : Oid) {work : List (Nat × Tuple × Bytes)}
    (hpage : Holds (Coded P) page)
    (hwork : ∀ entry ∈ work, SlotHolds page entry.1 entry.2.1 ∧ P entry.2.1)
    (hnodup : (work.map Prod.fst).Nodup)
    (hstamps : ∀ j < work.length, Stamps P (db.wal.currentXid + UInt64.ofNat j)) :
    Ensures (updateTuples relOid p work page) db
      (fun _ db' => Rewrites P (· = p) db db' ∧
        db'.wal.currentXid = db.wal.currentXid + UInt64.ofNat work.length)
      (Rewrites P (· = p) db) := by
  refine (tuples_ensures
    (fun entry page => updateTuple relOid p page entry.1 entry.2.1 entry.2.2) Prod.fst
    (fun entry => entry.2.1) (fun _ => rfl) (fun _ _ _ => rfl)
    (fun page' db' => Rewrites P (· = p) db db' ∧ Holds (Coded P) page')
    (Stamps P) ?_ ⟨rewrites_refl P _ db, hpage⟩ hwork hnodup hstamps).imp ?_ fun _ h => h
  · rintro entry page db' ⟨hR, hpage⟩ hslot hP hstamps
    exact updateTuple_ensures relOid entry.2.2 hR hpage hslot hP hstamps
  · rintro _ db' ⟨⟨page', hR, -⟩, hxid⟩
    exact ⟨hR, hxid⟩

end Tuples

section Pages

omit [Bincode] [LawfulStorage σ] in
theorem tupleCount_congr {storage storage' : σ} {work : HeapPage → Nat} {ids : List PageId}
    (h : ∀ q ∈ ids, readPage storage' q = readPage storage q) :
    tupleCount storage' work ids = tupleCount storage work ids := by
  unfold tupleCount
  congr 1
  apply List.map_congr_left
  intro q hq
  rw [pageOf, pageOf, h q hq]

/-- What a statement has done so far: the pages in `touched` were rewritten, and
whatever else `Rel` says of it. -/
structure Tracks (P : Tuple → Prop)
    (Rel : (PageId → Prop) → Database σ → Database σ → Prop) : Prop where
  refl : ∀ touched db, Rel touched db db
  trans : ∀ touched db₀ db db', Rel touched db₀ db → Rel touched db db' → Rel touched db₀ db'
  mono : ∀ touched touched' db db', Rel touched db db' → (∀ q, touched q → touched' q) →
    Rel touched' db db'
  rewrites : ∀ touched db db', Rel touched db db' → Rewrites P touched db db'

omit [LawfulStorage σ] in
theorem tracks_rewrites (P : Tuple → Prop) : Tracks P (@Rewrites _ σ _ P) :=
  ⟨rewrites_refl P, fun _ _ _ _ => Rewrites.trans, fun _ _ _ _ h => h.mono, fun _ _ _ h => h⟩

omit [LawfulStorage σ] in
theorem tracks_restamps (P : Tuple → Prop) (W : UInt64 → Prop) :
    Tracks P fun touched (db db' : Database σ) => Rewrites P touched db db' ∧ Restamps W db db' :=
  ⟨fun touched db => ⟨rewrites_refl P touched db, restamps_refl W db⟩,
    fun _ _ _ _ h h' => ⟨h.1.trans h'.1, h.2.trans h'.2⟩,
    fun _ _ _ _ h hsub => ⟨h.1.mono hsub, h.2⟩, fun _ _ _ h => h.1⟩

variable {Rel : (PageId → Prop) → Database σ → Database σ → Prop}

omit [LawfulStorage σ] in
/-- The loop over a relation's pages that updates and deletes share: a page that
is not worked on is left alone. -/
theorem pages_ensures (hrel : Tracks P Rel) {loop : List PageId → Proc (Database σ) Nat}
    (body : PageId → HeapPage → Proc (Database σ) Unit) (work : HeapPage → Nat)
    (Good : UInt64 → Prop) (hnil : loop [] = pure 0)
    (hcons : ∀ q ids, loop (q :: ids) = do
      let page ← readHeapPage q
      body q page
      let rest ← loop ids
      pure (work page + rest))
    (hbody : ∀ q page db, Holds (Coded P) page →
      readPage db.cache.disk.storage q = .ok (image page) →
      (∀ j < work (stored page), Good (db.wal.currentXid + UInt64.ofNat j)) →
      Ensures (body q (stored page)) db
        (fun _ db' => Rel (fun r => r = q ∧ work (stored page) ≠ 0) db db' ∧
          db'.wal.currentXid = db.wal.currentXid + UInt64.ofNat (work (stored page)))
        (Rel (fun r => r = q ∧ work (stored page) ≠ 0) db))
    {ids : List PageId} (hR : Rel touched db₀ db) (hnodup : ids.Nodup)
    (hcoded : ∀ q ∈ ids, CodedAt P db.cache.disk.storage q)
    (htouched : ∀ q ∈ ids, ∀ page, PageAt db.cache.disk.storage q page → work page ≠ 0 →
      touched q)
    (hstamps : ∀ j < tupleCount db.cache.disk.storage work ids,
      Good (db.wal.currentXid + UInt64.ofNat j)) :
    Ensures (loop ids) db (fun _ => Rel touched db₀) (Rel touched db₀) := by
  induction ids generalizing db with
  | nil =>
      rw [hnil]
      exact ensures_pure hR
  | cons q ids ih =>
      obtain ⟨hnot, hnodup⟩ := List.nodup_cons.mp hnodup
      obtain ⟨page, hpage, hread⟩ := hcoded q List.mem_cons_self
      have hat : PageAt db.cache.disk.storage q (stored page) :=
        ⟨image page, hread, deserialize_image hpage.wellFormed⟩
      have hcount : tupleCount db.cache.disk.storage work (q :: ids) =
          work (stored page) + tupleCount db.cache.disk.storage work ids := by
        simp [tupleCount, pageOf_eq_some.mpr hat]
      have hq : ∀ r, r = q ∧ work (stored page) ≠ 0 → touched r := by
        rintro r ⟨rfl, hwork⟩
        exact htouched r List.mem_cons_self _ hat hwork
      rw [hcons]
      apply ensures_ok_bind (readHeapPage_eq_ok.mpr ⟨hat, rfl⟩)
      have hthis := hbody q page db hpage hread fun j hj => hstamps j (by omega)
      have hmono : ∀ db', Rel (fun r => r = q ∧ work (stored page) ≠ 0) db db' →
          Rel touched db₀ db' := fun db' h => hrel.trans _ _ _ _ hR (hrel.mono _ _ _ _ h hq)
      refine ensures_bind (hthis.imp (fun _ _ h => h) hmono) ?_
      · rintro _ db' ⟨hR', hxid⟩
        have hrewrites := hrel.rewrites _ _ _ hR'
        have hsame : ∀ r ∈ ids, readPage db'.cache.disk.storage r =
            readPage db.cache.disk.storage r := by
          intro r hr
          apply hrewrites.untouched r
          rintro ⟨rfl, _⟩
          exact hnot hr
        have hrest := ih (hmono db' hR') hnodup ?_ ?_ ?_
        · exact ensures_bind hrest fun _ _ h => ensures_pure h
        · intro r hr
          exact hrewrites.coded r (hcoded r (List.mem_cons_of_mem _ hr))
        · intro r hr page' hat' hwork
          refine htouched r (List.mem_cons_of_mem _ hr) page' ?_ hwork
          rw [← pageOf_eq_some] at hat' ⊢
          rw [← hat', pageOf, pageOf, hsame r hr]
        · intro j hj
          rw [tupleCount_congr hsame] at hj
          have hnext := hstamps (work (stored page) + j) (by omega)
          rw [UInt64.ofNat_add, ← UInt64.add_assoc] at hnext
          rw [hxid]
          exact hnext

omit [LawfulStorage σ] in
/-- A page's loop body, from what the loop over its tuples does. -/
theorem body_ensures (hrel : Tracks P Rel) {body : Proc (Database σ) Unit} {count : Nat}
    {q : PageId} (hempty : count = 0 → body = pure ())
    (hbody : Ensures body db
      (fun _ db' => Rel (· = q) db db' ∧
        db'.wal.currentXid = db.wal.currentXid + UInt64.ofNat count)
      (Rel (· = q) db)) :
    Ensures body db
      (fun _ db' => Rel (fun r => r = q ∧ count ≠ 0) db db' ∧
        db'.wal.currentXid = db.wal.currentXid + UInt64.ofNat count)
      (Rel (fun r => r = q ∧ count ≠ 0) db) := by
  by_cases hcount : count = 0
  · rw [hempty hcount, hcount]
    exact ⟨hrel.refl _ db, (UInt64.add_zero _).symm⟩
  · apply hbody.imp
    · rintro _ db' ⟨hR, hxid⟩
      exact ⟨hrel.mono _ _ _ _ hR fun r hr => ⟨hr, hcount⟩, hxid⟩
    · intro db' hR
      exact hrel.mono _ _ _ _ hR fun r hr => ⟨hr, hcount⟩

variable [LawfulBincode]

theorem deletePages_ensures (relOid : Oid) (desc : TupleDesc) (filter : Option Filter)
    {W : UInt64 → Prop} {ids : List PageId} (hnodup : ids.Nodup)
    (hcoded : ∀ q ∈ ids, CodedAt P db.cache.disk.storage q)
    (hstamps : ∀ j < tupleCount db.cache.disk.storage
      (fun page => (matchingTuples page desc filter).length) ids,
      Expires P (db.wal.currentXid + UInt64.ofNat j) ∧ W (db.wal.currentXid + UInt64.ofNat j)) :
    Ensures (deletePages relOid desc filter ids) db
      (fun _ db' => Rewrites P (DeletesOn db.cache.disk.storage desc filter) db db' ∧
        Restamps W db db')
      (fun db' => Rewrites P (DeletesOn db.cache.disk.storage desc filter) db db' ∧
        Restamps W db db') := by
  have hrel : Tracks P fun touched (db db' : Database σ) =>
      Rewrites P touched db db' ∧ Restamps W db db' := tracks_restamps P W
  refine pages_ensures hrel
    (fun q page => deleteTuples relOid q (matchingTuples page desc filter) page) _
    (fun xid => Expires P xid ∧ W xid) rfl (fun _ _ => rfl) ?_ (hrel.refl _ db) hnodup hcoded ?_
    hstamps
  · intro q page db hpage hread hstamps
    apply body_ensures hrel
    · intro hcount
      rw [List.length_eq_zero_iff.mp hcount]
      rfl
    · refine deleteTuples_ensures relOid ?_ (holds_stored hpage)
        (fun entry hentry => matchingTuples_holds hpage hentry) (matchingTuples_nodup _ _ _)
        hstamps
      intro slot tup hslot
      rw [hread] at hslot
      exact slotHolds_of_slotIn hpage.wellFormed hslot
  · intro q _ page hat hwork
    exact ⟨page, hat, fun hnil => hwork (by rw [hnil]; rfl)⟩

theorem updatePages_ensures (relOid : Oid) (desc : TupleDesc) (columnIdx : Nat)
    (newValue : Bytes) (filter : Option Filter) {ids : List PageId} (hnodup : ids.Nodup)
    (hcoded : ∀ q ∈ ids, CodedAt P db.cache.disk.storage q)
    (hstamps : ∀ j < tupleCount db.cache.disk.storage
      (fun page => (tuplesToUpdate page desc columnIdx newValue filter).length) ids,
      Stamps P (db.wal.currentXid + UInt64.ofNat j)) :
    Ensures (updatePages relOid desc columnIdx newValue filter ids) db
      (fun _ => Rewrites P (UpdatesOn db.cache.disk.storage desc columnIdx newValue filter) db)
      (Rewrites P (UpdatesOn db.cache.disk.storage desc columnIdx newValue filter) db) := by
  refine pages_ensures (tracks_rewrites P)
    (fun q page =>
      updateTuples relOid q (tuplesToUpdate page desc columnIdx newValue filter) page) _
    (Stamps P) rfl (fun _ _ => rfl) ?_ (rewrites_refl P _ db) hnodup hcoded ?_ hstamps
  · intro q page db hpage _ hstamps
    apply body_ensures (tracks_rewrites P)
    · intro hcount
      rw [List.length_eq_zero_iff.mp hcount]
      rfl
    · refine updateTuples_ensures relOid (holds_stored hpage) ?_
        (tuplesToUpdate_nodup _ _ _ _ _) hstamps
      rintro ⟨slot, tup, data⟩ hentry
      exact matchingTuples_holds hpage (mem_tuplesToUpdate hentry)
  · intro q _ page hat hwork
    exact ⟨page, hat, fun hnil => hwork (by rw [hnil]; rfl)⟩

end Pages

end Writes

section Vacuum

variable [Bincode] {σ : Type} [StorageTrait σ]

theorem markReclaimable_retired (oldestXmin : UInt32) (lps : List LinePointer)
    (tuples : List Bytes) : Retired lps (markReclaimable oldestXmin lps tuples).1 := by
  induction lps generalizing tuples with
  | nil => exact List.Forall₂.nil
  | cons lp lps ih =>
      have htail := ih tuples.tail
      simp only [markReclaimable]
      split
      · exact List.Forall₂.cons (Or.inr rfl) htail
      · exact List.Forall₂.cons (Or.inl rfl) htail

/-- Pages were rewritten, and those that were are no longer mapped. -/
structure Vacuumed (P : Tuple → Prop) (db db' : Database σ) : Prop where
  rels_eq : db'.cache.rels = db.cache.rels
  poolSize_eq : db'.cache.disk.pool.poolSize = db.cache.disk.pool.poolSize
  pinned : ∀ pages, Pinned db.cache.disk.pool pages → Pinned db'.cache.disk.pool pages
  coded : ∀ q, CodedAt P db.cache.disk.storage q → CodedAt P db'.cache.disk.storage q
  fresh : ∀ q, slotOf db'.cache.disk.pool q = none ∨
    slotOf db'.cache.disk.pool q = slotOf db.cache.disk.pool q ∧
      readPage db'.cache.disk.storage q = readPage db.cache.disk.storage q

variable {P : Tuple → Prop} {db₀ db db' : Database σ}

theorem vacuumed_refl (P : Tuple → Prop) (db : Database σ) : Vacuumed P db db :=
  ⟨rfl, rfl, fun _ h => h, fun _ h => h, fun _ => Or.inr ⟨rfl, rfl⟩⟩

theorem Vacuumed.trans (h : Vacuumed P db₀ db) (h' : Vacuumed P db db') : Vacuumed P db₀ db' := by
  refine ⟨h'.rels_eq.trans h.rels_eq, h'.poolSize_eq.trans h.poolSize_eq,
    fun pages hpages => h'.pinned pages (h.pinned pages hpages),
    fun q hq => h'.coded q (h.coded q hq), ?_⟩
  intro q
  rcases h'.fresh q with hnone | ⟨hslot, hread⟩
  · exact Or.inl hnone
  · rcases h.fresh q with hnone | ⟨hslot', hread'⟩
    · exact Or.inl (hslot.trans hnone)
    · exact Or.inr ⟨hslot.trans hslot', hread.trans hread'⟩

variable [LawfulStorage σ]

/-- One page of `vacuum_relation`, rewritten and invalidated. -/
theorem vacuumed_page {pages : List PageId} {page : HeapPage} {q : PageId}
    (hpool : Pinned db.cache.disk.pool pages) (hpage : Holds (Coded P) page) :
    ∃ db', (do writeHeapPage q page; onCache (onDisk (invalidatePage q))) db = .ok () db' ∧
      Vacuumed P db db' := by
  set storage := (writePage db.cache.disk.storage q (image page)).2 with hstorage
  obtain ⟨disk, hinvalidate, hdisk, hpinned, hsize, hnone, hothers⟩ :=
    invalidatePage_pinned (s := ⟨db.cache.disk.pool, storage⟩) hpool q
  refine ⟨{ db with cache := { db.cache with disk := disk } }, ?_, rfl, hsize, ?_, ?_, ?_⟩
  · rw [bind_ok (writeHeapPage_ok (serialize_eq_image hpage.wellFormed))]
    exact within_ok (within_ok hinvalidate)
  · intro pages' hpages'
    obtain ⟨disk', hinvalidate', _, hpinned', _⟩ :=
      invalidatePage_pinned (s := ⟨db.cache.disk.pool, storage⟩) hpages' q
    rw [hinvalidate] at hinvalidate'
    cases hinvalidate'
    exact hpinned'
  · intro r hr
    simp only [hdisk]
    by_cases hrq : r = q
    · subst hrq
      exact ⟨page, hpage, LawfulStorage.read_write_self _ _ _⟩
    · obtain ⟨page', hpage', hread⟩ := hr
      exact ⟨page', hpage', (LawfulStorage.read_write_of_ne _ _ _ _ hrq).trans hread⟩
  · intro r
    by_cases hrq : r = q
    · subst hrq
      exact Or.inl hnone
    · refine Or.inr ⟨hothers r hrq, ?_⟩
      simp only [hdisk]
      exact LawfulStorage.read_write_of_ne _ _ _ _ hrq

/-- What every sweep of a page keeps, the sweep of all pages keeps. -/
theorem vacuumPages_rule {I : Database σ → Prop} (oldestXmin : UInt32) {ids : List PageId}
    (hcoded : ∀ db, I db → ∀ q ∈ ids, CodedAt P db.cache.disk.storage q)
    (hswept : ∀ db q page, I db → Holds (Coded P) page →
      Ensures (onCache (onDisk (invalidatePage q)))
        { db with
          cache := withStorage db.cache (writePage db.cache.disk.storage q (image page)).2 }
        (fun _ => I) I)
    (h : I db) : Ensures (vacuumPages oldestXmin ids) db (fun _ => I) I := by
  induction ids generalizing db with
  | nil => exact ensures_pure h
  | cons q ids ih =>
      obtain ⟨page, hpage, hat⟩ := (hcoded db h q List.mem_cons_self).pageAt
      have hrest : ∀ db, I db → ∀ r ∈ ids, CodedAt P db.cache.disk.storage r :=
        fun db h r hr => hcoded db h r (List.mem_cons_of_mem _ hr)
      apply ensures_ok_bind (readHeapPage_eq_ok.mpr ⟨hat, rfl⟩)
      have hretired := markReclaimable_retired oldestXmin (stored page).linePointers
        (stored page).tuples
      rcases hmark : markReclaimable oldestXmin (stored page).linePointers (stored page).tuples
        with ⟨lps, count⟩
      rw [hmark] at hretired
      simp only
      split
      · apply ensures_orPanic_bind
        intro page' hcompact
        have hpage' := holds_compact (holds_retired (holds_stored hpage) hretired) hcompact
        apply ensures_ok_bind (writeHeapPage_ok (serialize_eq_image hpage'.wellFormed))
        apply ensures_bind (hswept db q page' h hpage')
        intro _ db' h'
        exact ensures_bind (ih hrest h') fun _ _ hdb => ensures_pure hdb
      · exact ensures_bind (ih hrest h) fun _ _ hdb => ensures_pure hdb

theorem vacuumPages_ensures {pages : List PageId} (oldestXmin : UInt32) {ids : List PageId}
    (hV : Vacuumed P db₀ db) (hpool : Pinned db.cache.disk.pool pages)
    (hcoded : ∀ q ∈ ids, CodedAt P db.cache.disk.storage q) :
    Ensures (vacuumPages oldestXmin ids) db (fun _ => Vacuumed P db₀) (Vacuumed P db₀) := by
  refine (vacuumPages_rule (I := fun db => Vacuumed P db₀ db ∧
    Pinned db.cache.disk.pool pages ∧ ∀ q ∈ ids, CodedAt P db.cache.disk.storage q) oldestXmin
    (fun _ h => h.2.2) ?_ ⟨hV, hpool, hcoded⟩).imp (fun _ _ h => h.1) fun _ h => h.1
  rintro db q page ⟨hV, hpool, hcoded⟩ hpage
  obtain ⟨db', hrun, hV'⟩ := vacuumed_page hpool hpage (q := q)
  rw [bind_ok (writeHeapPage_ok (serialize_eq_image hpage.wellFormed))] at hrun
  rw [Ensures, hrun]
  exact ⟨hV.trans hV', hV'.pinned pages hpool, fun r hr => hV'.coded r (hcoded r hr)⟩

end Vacuum

end PostgressRs.Executor.HeapContents
