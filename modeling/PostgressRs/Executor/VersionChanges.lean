import Mathlib.Algebra.BigOperators.Group.Multiset.Basic
import PostgressRs.Executor.VacuumEffects

/-!
What updates and deletes do to the row versions of a relation's stored pages, as
multisets: each version that a statement finds is exchanged for what it leaves
of it.
-/

namespace PostgressRs.Executor.VersionChanges

open PostgressRs.BufferCache.PagePool
open PostgressRs.BufferCache.SharedCache
open PostgressRs.Executor.HeapAccess
open PostgressRs.Executor.HeapContents
open PostgressRs.Executor.HeapInvariant
open PostgressRs.Executor.HeapSteps
open PostgressRs.Executor.RowVersions
open PostgressRs.Executor.VacuumEffects
open PostgressRs.Lib.ByteBuffer
open PostgressRs.Lib.Procedure
open PostgressRs.Storage.PageContents
open PostgressRs.Storage.PageRoundTrip
open PostgressRs.Storage.PageStore
open PostgressRs.Storage.SlottedPage
open PostgressRs.Txn.TransactionTable
open PostgressRs.Types
open PostgressRs.Wal.LogRecord
open PostgressRs.Wal.WriteAheadLog

section Changes

/-- What becomes of a version that a statement finds. -/
inductive Fate where
  /-- It stays in its slot with a deleter. -/
  | stamped
  /-- It stays in its slot with a deleter and its next version is added. -/
  | followed
  /-- Its slot is redirected to its next version. -/
  | replaced
deriving DecidableEq

structure Change where
  old : Tuple
  data : Bytes
  xid : UInt64
  fate : Fate

namespace Change

def stamp (change : Change) : Tuple := { change.old with xmax := change.xid }

def next (change : Change) : Tuple :=
  { change.old with xmin := change.xid, xmax := 0, data := change.data }

def after (change : Change) : Multiset Tuple :=
  match change.fate with
  | .stamped => {change.stamp}
  | .followed => {change.stamp} + {change.next}
  | .replaced => {change.next}

end Change

/-- The changes lead from the versions `before` to the versions `after`. -/
def Exchanged (changes : List Change) (before after : Multiset Tuple) : Prop :=
  after + (changes.map Change.old : Multiset Tuple) = before + (changes.map Change.after).sum

theorem exchanged_nil (versions : Multiset Tuple) : Exchanged [] versions versions := rfl

theorem Exchanged.append {changes changes' : List Change} {before mid after : Multiset Tuple}
    (h : Exchanged changes before mid) (h' : Exchanged changes' mid after) :
    Exchanged (changes ++ changes') before after := by
  unfold Exchanged at h h' ⊢
  rw [List.map_append, List.map_append, List.sum_append, ← Multiset.coe_add]
  calc
    after + (↑(changes.map Change.old) + ↑(changes'.map Change.old))
        = after + ↑(changes'.map Change.old) + ↑(changes.map Change.old) := by
      rw [add_assoc, add_comm (↑(changes.map Change.old) : Multiset Tuple)]
    _ = mid + ↑(changes.map Change.old) + (changes'.map Change.after).sum := by
      rw [h', add_right_comm]
    _ = before + ((changes.map Change.after).sum + (changes'.map Change.after).sum) := by
      rw [h, add_assoc]

/-- Versions elsewhere stay. -/
theorem Exchanged.add {changes changes' : List Change}
    {before after before' after' : Multiset Tuple} (h : Exchanged changes before after)
    (h' : Exchanged changes' before' after') :
    Exchanged (changes ++ changes') (before + before') (after + after') := by
  unfold Exchanged at h h' ⊢
  rw [List.map_append, List.map_append, List.sum_append, ← Multiset.coe_add, add_add_add_comm, h,
    h', add_add_add_comm]

end Changes

section Pages

variable [Bincode]

/-- The tuples that decode. -/
def decodable (encoded : Multiset Bytes) : Multiset Tuple :=
  encoded.filterMap fun bytes => (deserializeTuple bytes).toOption

/-- The versions on a page. -/
def versions (page : HeapPage) : Multiset Tuple := decodable (contents page)

def encodedLength (tup : Tuple) : Nat :=
  match serializeTuple tup with
  | .ok encoded => encoded.length
  | .error _ => 0

/-- `tuple_delete` stamps what it finds. -/
def deleteFate (_free _dead _length : Nat) : Fate := .stamped

/-- `tuple_update` makes a HOT update if the next version and a line pointer fit
into the free space.  Else `add_tuple` finds room in a dead slot only. -/
def updateFate (free dead length : Nat) : Fate :=
  if length + linePointerSize ≤ free then .replaced
  else if dead ≠ 0 ∧ length ≤ free then .followed
  else .stamped

/-- The free space and the number of dead slots. -/
def room (page : HeapPage) : Nat × Nat := (freeSpace page, deadSlots page)

def roomAfter (room : Nat × Nat) (length : Nat) : Fate → Nat × Nat
  | .stamped => room
  | .followed => (room.1 - length, room.2 - 1)
  | .replaced => (room.1 - (length + linePointerSize), room.2)

/-- How a statement changes the versions it finds on a page, each with the data
of its next version. -/
def changesFrom (fateOf : Nat → Nat → Nat → Fate) :
    Nat × Nat → UInt64 → List (Tuple × Bytes) → List Change
  | _, _, [] => []
  | room, xid, (tup, data) :: work =>
      let length := encodedLength { tup with xmin := xid, xmax := 0, data := data }
      let fate := fateOf room.1 room.2 length
      ⟨tup, data, xid, fate⟩ :: changesFrom fateOf (roomAfter room length fate) (xid + 1) work

theorem changesFrom_length (fateOf : Nat → Nat → Nat → Fate) (room : Nat × Nat) (xid : UInt64)
    (work : List (Tuple × Bytes)) : (changesFrom fateOf room xid work).length = work.length := by
  induction work generalizing room xid with
  | nil => rfl
  | cons entry work ih => simp only [changesFrom, List.length_cons, ih]

theorem encodedLength_eq {tup : Tuple} {encoded : Bytes} (h : serializeTuple tup = .ok encoded) :
    encodedLength tup = encoded.length := by
  simp only [encodedLength, h]

theorem decodable_add (encoded encoded' : Multiset Bytes) :
    decodable (encoded + encoded') = decodable encoded + decodable encoded' :=
  Multiset.filterMap_add _ _ _

theorem decodable_singleton [LawfulBincode] {tup : Tuple} {encoded : Bytes}
    (h : serializeTuple tup = .ok encoded) : decodable {encoded} = {tup} := by
  rw [decodable, ← Multiset.cons_zero encoded, Multiset.filterMap_cons,
    LawfulBincode.deserialize_serialize h]
  rfl

theorem versions_exchange [LawfulBincode] {page page' : HeapPage} {tup : Tuple} {old : Bytes}
    {added : Multiset Bytes} (hcode : serializeTuple tup = .ok old)
    (h : (contents page' : Multiset Bytes) + {old} = (contents page : Multiset Bytes) + added) :
    versions page' + {tup} = versions page + decodable added := by
  rw [versions, versions, ← decodable_singleton hcode, ← decodable_add, ← decodable_add, h]

end Pages

section Steps

variable [Bincode] {σ : Type} [StorageTrait σ]

/-- A version of the page in memory was changed and the page written. -/
structure Stepped (fateOf : Nat → Nat → Nat → Fate) (p : PageId) (slot : Nat) (tup : Tuple)
    (data : Bytes) (page : HeapPage) (db : Database σ) (page' : HeapPage) (db' : Database σ) :
    Prop where
  holds : Holds (Coded fun _ => True) page'
  cache_eq : db'.cache = withStorage db.cache (writePage db.cache.disk.storage p (image page')).2
  xid_eq : db'.wal.currentXid = db.wal.currentXid + 1
  others : ∀ slot' tup', slot' ≠ slot → SlotHolds page slot' tup' → SlotHolds page' slot' tup'
  changed : ∀ length fate,
    length = encodedLength { tup with xmin := db.wal.currentXid, xmax := 0, data := data } →
    fate = fateOf (freeSpace page) (deadSlots page) length →
    Exchanged [⟨tup, data, db.wal.currentXid, fate⟩] (versions page) (versions page') ∧
      room page' = roomAfter (room page) length fate

variable {page page' : HeapPage} {db db' : Database σ} {p : PageId} {slot : Nat} {tup : Tuple}

omit [StorageTrait σ] in
theorem append_eq_ok {α : Type} {record : WALRecord} {a b : α}
    (h : (do let _ ← onWal (append record); pure a : Proc (Database σ) α) db = .ok b db') :
    b = a ∧ db'.cache = db.cache ∧ db'.wal.currentXid = db.wal.currentXid := by
  obtain ⟨_, db₁, happend, hpure⟩ := bind_eq_ok.mp h
  cases hpure
  obtain ⟨hcache, hxid⟩ := (keeps_onWal_append record).ok happend
  exact ⟨rfl, hcache, hxid⟩

omit [Bincode] in
theorem replaceTuple_eq_some {encoded : Bytes} (h : replaceTuple page slot encoded = some page') :
    page' = page.setTuple slot encoded := by
  unfold replaceTuple at h
  split at h
  · cases h
    rfl
  · cases h

variable [LawfulStorage σ] [LawfulBincode]

omit [LawfulBincode] in
theorem writeHeapPage_append_eq_ok {record : WALRecord} {written : HeapPage}
    (h : (do writeHeapPage p page; let _ ← onWal (append record); pure written) db =
      .ok page' db') :
    page' = written ∧ db'.wal.currentXid = db.wal.currentXid ∧
      ∃ data, page.serialize = some data ∧
        db'.cache = withStorage db.cache (writePage db.cache.disk.storage p data).2 := by
  obtain ⟨_, _, hwrite, hrest⟩ := bind_eq_ok.mp h
  obtain ⟨data, hdata, rfl⟩ := writeHeapPage_eq_ok.mp hwrite
  obtain ⟨hpage', hcache, hxid⟩ := append_eq_ok hrest
  exact ⟨hpage', hxid, data, hdata, hcache⟩

omit [LawfulBincode] in
theorem deleteTuple_eq_ok {relOid : Oid}
    (h : deleteTuple relOid p page slot tup db = .ok page' db') :
    ∃ encoded data, serializeTuple { tup with xmax := db.wal.currentXid } = .ok encoded ∧
      page' = page.setTuple slot encoded ∧ page'.serialize = some data ∧
      db'.cache = withStorage db.cache (writePage db.cache.disk.storage p data).2 ∧
      db'.wal.currentXid = db.wal.currentXid + 1 := by
  rw [deleteTuple, bind_ok (allocateXid_apply db)] at h
  obtain ⟨encoded, _, hser, h⟩ := bind_eq_ok.mp h
  obtain ⟨hencoded, rfl⟩ := ofExcept_eq_ok.mp hser
  obtain ⟨page₁, _, hput, h⟩ := bind_eq_ok.mp h
  obtain ⟨hreplace, rfl⟩ := orPanic_eq_ok.mp hput
  obtain ⟨rfl, hxid, data, hdata, hcache⟩ := writeHeapPage_append_eq_ok h
  exact ⟨encoded, data, hencoded, replaceTuple_eq_some hreplace, hdata, hcache, hxid⟩

omit [LawfulBincode] in
theorem updateTuple_eq_ok {relOid : Oid} {newData : Bytes}
    (h : updateTuple relOid p page slot tup newData db = .ok page' db') :
    ∃ newEncoded oldEncoded data page₁ hotSlot,
      serializeTuple { tup with xmin := db.wal.currentXid, xmax := 0, data := newData } =
        .ok newEncoded ∧
      serializeTuple { tup with xmax := db.wal.currentXid } = .ok oldEncoded ∧
      page.hotUpdate (UInt16.ofNat slot) newEncoded = some (page₁, hotSlot) ∧
      (hotSlot ≠ none ∧ page' = page₁.setTuple slot oldEncoded ∨
        hotSlot = none ∧ ∃ used,
          (page₁.setTuple slot oldEncoded).addTuple newEncoded = some (page', used)) ∧
      page'.serialize = some data ∧
      db'.cache = withStorage db.cache (writePage db.cache.disk.storage p data).2 ∧
      db'.wal.currentXid = db.wal.currentXid + 1 := by
  rw [updateTuple, bind_ok (allocateXid_apply db)] at h
  obtain ⟨newEncoded, _, hser, h⟩ := bind_eq_ok.mp h
  obtain ⟨hnew, rfl⟩ := ofExcept_eq_ok.mp hser
  obtain ⟨⟨page₁, hotSlot⟩, _, hput, h⟩ := bind_eq_ok.mp h
  obtain ⟨hhot, rfl⟩ := orPanic_eq_ok.mp hput
  obtain ⟨oldEncoded, _, hser, h⟩ := bind_eq_ok.mp h
  obtain ⟨hold, rfl⟩ := ofExcept_eq_ok.mp hser
  obtain ⟨page₂, _, hput, h⟩ := bind_eq_ok.mp h
  obtain ⟨hreplace, rfl⟩ := orPanic_eq_ok.mp hput
  obtain rfl := replaceTuple_eq_some hreplace
  cases hotSlot with
  | some newSlot =>
      obtain ⟨_, _, hwrite, h⟩ := bind_eq_ok.mp h
      obtain ⟨data, hdata, rfl⟩ := writeHeapPage_eq_ok.mp hwrite
      obtain ⟨_, _, hput, h⟩ := bind_eq_ok.mp h
      obtain ⟨_, rfl⟩ := orPanic_eq_ok.mp hput
      obtain ⟨_, _, hser, h⟩ := bind_eq_ok.mp h
      obtain ⟨_, rfl⟩ := ofExcept_eq_ok.mp hser
      obtain ⟨rfl, hcache, hxid⟩ := append_eq_ok h
      exact ⟨newEncoded, oldEncoded, data, page₁, _, hnew, hold, hhot,
        Or.inl ⟨Option.some_ne_none _, rfl⟩, hdata, hcache, hxid⟩
  | none =>
      obtain ⟨newEncoded', _, hser, h⟩ := bind_eq_ok.mp h
      obtain ⟨hnew', rfl⟩ := ofExcept_eq_ok.mp hser
      rw [hnew] at hnew'
      cases hnew'
      obtain ⟨⟨page₃, used⟩, _, hput, h⟩ := bind_eq_ok.mp h
      obtain ⟨hadd, rfl⟩ := orPanic_eq_ok.mp hput
      obtain ⟨rfl, hxid, data, hdata, hcache⟩ := writeHeapPage_append_eq_ok h
      exact ⟨newEncoded, oldEncoded, data, page₁, none, hnew, hold, hhot,
        Or.inr ⟨rfl, used, hadd⟩, hdata, hcache, hxid⟩

omit [Bincode] [StorageTrait σ] [LawfulStorage σ] [LawfulBincode] in
theorem serialize_image {data : Bytes} (hpage : WellFormed page)
    (h : page.serialize = some data) : data = image page := by
  rw [serialize_eq_image hpage] at h
  exact (Option.some.inj h).symm

theorem deleteTuple_stepped {relOid : Oid} (hpage : Holds (Coded fun _ => True) page)
    (hslot : SlotHolds page slot tup)
    (h : deleteTuple relOid p page slot tup db = .ok page' db') :
    Stepped deleteFate p slot tup tup.data page db page' db' := by
  obtain ⟨lp, old, hlp, hnormal, hold, hcode⟩ := hslot
  obtain ⟨encoded, data, hencoded, rfl, hdata, hcache, hxid⟩ := deleteTuple_eq_ok h
  have hpage' : Holds (Coded fun _ => True) (page.setTuple slot encoded) :=
    holds_restamp hpage trivial (fun _ _ => trivial) hold hcode hencoded
  obtain rfl := serialize_image hpage'.wellFormed hdata
  refine ⟨hpage', hcache, hxid, ?_, ?_⟩
  · exact fun slot' tup' hne hslot' => slotHolds_setTuple encoded hslot' (Ne.symm hne)
  · rintro length fate - rfl
    have hset := contents_setTuple hlp hold encoded
    simp only [slotContents, hnormal, if_true] at hset
    have hversions := versions_exchange hcode hset
    rw [decodable_singleton hencoded] at hversions
    refine ⟨?_, rfl⟩
    simpa [Exchanged, Change.after, Change.stamp, deleteFate] using hversions

omit [StorageTrait σ] [LawfulStorage σ] in
theorem holds_hotStamped {page₁ : HeapPage} {newTup : Tuple} {newEncoded oldEncoded : Bytes}
    {xid : UInt64} {old : UInt16} {hotSlot : Option UInt16}
    (hpage : Holds (Coded fun _ => True) page) (hslot : SlotHolds page slot tup)
    (hnew : serializeTuple newTup = .ok newEncoded)
    (hstamp : serializeTuple { tup with xmax := xid } = .ok oldEncoded)
    (hhot : page.hotUpdate old newEncoded = some (page₁, hotSlot)) :
    Holds (Coded fun _ => True) (page₁.setTuple slot oldEncoded) := by
  have hlt := hslot.lt.2
  obtain ⟨_, bytes, _, _, hbytes, hcode⟩ := hslot
  have hpage₁ := holds_hotUpdate hpage (serializeTuple_ne_nil hnew) ⟨_, hnew, trivial⟩ hhot
  exact holds_restamp hpage₁ trivial (fun _ _ => trivial)
    ((hotUpdate_getElem? hhot hlt).trans hbytes) hcode hstamp

theorem updateTuple_stepped {relOid : Oid} {newData : Bytes}
    (hpage : Holds (Coded fun _ => True) page) (hslot : SlotHolds page slot tup)
    (h : updateTuple relOid p page slot tup newData db = .ok page' db') :
    Stepped updateFate p slot tup newData page db page' db' := by
  obtain ⟨newEncoded, oldEncoded, data, page₁, hotSlot, hnew, holdEncoded, hhot, hwritten, hdata,
    hcache, hxid⟩ := updateTuple_eq_ok h
  have hlt := hslot.lt
  have hpage₂ := holds_hotStamped hpage hslot hnew holdEncoded hhot
  obtain ⟨lp, old, hlp, hnormal, hold, hcode⟩ := hslot
  have hval : (UInt16.ofNat slot).toNat = slot := by
    rw [UInt16.toNat_ofNat']
    exact Nat.mod_eq_of_lt (by have := linePointers_lt hpage.wellFormed; omega)
  have hnewNe := serializeTuple_ne_nil hnew
  have hold₁ : page₁.tuples[slot]? = some old := (hotUpdate_getElem? hhot hlt.2).trans hold
  have hothers : ∀ slot' tup', slot' ≠ slot → SlotHolds page slot' tup' →
      SlotHolds (page₁.setTuple slot oldEncoded) slot' tup' := by
    intro slot' tup' hne hslot'
    apply slotHolds_setTuple oldEncoded _ (Ne.symm hne)
    exact slotHolds_hotUpdate hslot' (by rw [hval]; exact Ne.symm hne) hhot
  have hlength := encodedLength_eq hnew
  have houtcome := hotUpdate_outcome hpage.wellFormed (by rw [hval]; exact hlp) hnormal
    (by rw [hval]; exact hold) hhot
  rw [hval] at houtcome
  rcases houtcome with ⟨hfits, hused, hfree, hdead, hexchange, lp', hlp', hretired⟩ |
    ⟨hfull, rfl, rfl⟩
  · -- the HOT update took place: the old version's slot is redirected
    obtain ⟨-, rfl⟩ : hotSlot ≠ none ∧ page' = page₁.setTuple slot oldEncoded :=
      hwritten.resolve_right fun hnone => hused hnone.1
    obtain rfl := serialize_image hpage₂.wellFormed hdata
    refine ⟨hpage₂, hcache, hxid, hothers, ?_⟩
    rintro length fate rfl rfl
    have hfate : updateFate (freeSpace page) (deadSlots page) newEncoded.length = .replaced :=
      if_pos hfits
    have hset := contents_setTuple hlp' hold₁ oldEncoded
    simp only [slotContents, hretired, if_false, add_zero] at hset
    have hversions := versions_exchange hcode (hset ▸ hexchange)
    rw [decodable_singleton hnew] at hversions
    rw [hlength, hfate]
    refine ⟨?_, Prod.ext hfree hdead⟩
    simpa [Exchanged, Change.after, Change.next] using hversions
  · -- the fallback
    obtain ⟨-, used, hadd⟩ := hwritten.resolve_left fun hsome => hsome.1 rfl
    have hpage₃ := holds_addTuple hpage₂ hnewNe ⟨_, hnew, trivial⟩ hadd
    obtain rfl := serialize_image hpage₃.wellFormed hdata
    refine ⟨hpage₃, hcache, hxid, ?_, ?_⟩
    · intro slot' tup' hne hslot'
      exact slotHolds_addTuple hpage₂.wellFormed (hothers slot' tup' hne hslot') hadd
    rintro length fate rfl rfl
    have hset := contents_setTuple hlp hold oldEncoded
    simp only [slotContents, hnormal, if_true] at hset
    rw [hlength]
    rcases addTuple_outcome hpage₂.wellFormed hadd with
      ⟨_, hsome, hfits, hfree, hdead, hadded⟩ | ⟨_, _, hfits, _⟩ | ⟨_, hnone, rfl⟩
    · have hfate : updateFate (freeSpace page₁) (deadSlots page₁) newEncoded.length =
          .followed := by
        rw [updateFate, if_neg (Nat.not_le.mpr hfull), if_pos ⟨hsome, hfits⟩]
      have hboth : (contents page' : Multiset Bytes) + {old} =
          (contents page₁ : Multiset Bytes) + ({oldEncoded} + {newEncoded}) := by
        rw [hadded, add_right_comm, hset, add_assoc]
      have hversions := versions_exchange hcode hboth
      rw [decodable_add, decodable_singleton holdEncoded, decodable_singleton hnew] at hversions
      rw [hfate]
      refine ⟨?_, Prod.ext hfree hdead⟩
      simpa [Exchanged, Change.after, Change.next, Change.stamp] using hversions
    · exact absurd hfull (Nat.not_lt.mpr hfits)
    · have hfate : updateFate (freeSpace page₁) (deadSlots page₁) newEncoded.length =
          .stamped := by
        rw [updateFate, if_neg (Nat.not_le.mpr hfull), if_neg]
        rintro ⟨hsome, hfits⟩
        have hdead : deadSlots (page₁.setTuple slot oldEncoded) ≠ 0 := hsome
        rw [if_neg hdead] at hnone
        exact absurd hnone (Nat.not_lt.mpr hfits)
      have hversions := versions_exchange hcode hset
      rw [decodable_singleton holdEncoded] at hversions
      rw [hfate]
      refine ⟨?_, rfl⟩
      simpa [Exchanged, Change.after, Change.stamp] using hversions

end Steps

section Loops

variable [Bincode] {σ : Type} [StorageTrait σ]

/-- The changes were made to page `p`, which had the versions `before`. -/
structure PageChanged (changes : List Change) (p : PageId) (before : Multiset Tuple)
    (db db' : Database σ) : Prop where
  rels_eq : db'.cache.rels = db.cache.rels
  xid_eq : db'.wal.currentXid = db.wal.currentXid + UInt64.ofNat changes.length
  untouched : ∀ q, q ≠ p → readPage db'.cache.disk.storage q = readPage db.cache.disk.storage q
  held : ∃ page, Holds (Coded fun _ => True) page ∧
    readPage db'.cache.disk.storage p = .ok (image page) ∧
    Exchanged changes before (versions page)

/-- The versions on the stored pages. -/
def versionsOn (storage : σ) (ids : List PageId) : Multiset Tuple :=
  (ids.map fun p => ((pageOf storage p).map versions).getD 0).sum

/-- A statement's changes, page by page. -/
def changesOn (changesAt : HeapPage → UInt64 → List Change) (storage : σ) :
    List PageId → UInt64 → List Change
  | [], _ => []
  | p :: ids, xid =>
      let changes := ((pageOf storage p).map fun page => changesAt page xid).getD []
      changes ++ changesOn changesAt storage ids (xid + UInt64.ofNat changes.length)

variable {db db' : Database σ} {p : PageId}

theorem PageChanged.cons {change : Change} {changes : List Change}
    {before mid : Multiset Tuple} {db₁ : Database σ} (hrels : db₁.cache.rels = db.cache.rels)
    (hxid : db₁.wal.currentXid = db.wal.currentXid + 1)
    (huntouched : ∀ q, q ≠ p →
      readPage db₁.cache.disk.storage q = readPage db.cache.disk.storage q)
    (hchange : Exchanged [change] before mid) (h : PageChanged changes p mid db₁ db') :
    PageChanged (change :: changes) p before db db' := by
  refine ⟨h.rels_eq.trans hrels, ?_, fun q hq => (h.untouched q hq).trans (huntouched q hq), ?_⟩
  · rw [h.xid_eq, hxid, UInt64.add_assoc, List.length_cons, Nat.add_comm, UInt64.ofNat_add]
    rfl
  · obtain ⟨page, hpage, hread, hchanges⟩ := h.held
    exact ⟨page, hpage, hread, hchange.append hchanges⟩

variable [LawfulStorage σ]

/-- The loop over the versions a statement finds on a page. -/
theorem tuples_changed {ε : Type} {fateOf : Nat → Nat → Nat → Fate}
    {loop : List ε → HeapPage → Proc (Database σ) Unit}
    (body : ε → HeapPage → Proc (Database σ) HeapPage) (slotAt : ε → Nat) (tupleAt : ε → Tuple)
    (dataAt : ε → Bytes) (hnil : ∀ page, loop [] page = pure ())
    (hcons : ∀ entry rest page, loop (entry :: rest) page = body entry page >>= loop rest)
    (hbody : ∀ entry page page' db db', Holds (Coded fun _ => True) page →
      SlotHolds page (slotAt entry) (tupleAt entry) → body entry page db = .ok page' db' →
      Stepped fateOf p (slotAt entry) (tupleAt entry) (dataAt entry) page db page' db')
    {work : List ε} {page : HeapPage} (hpage : Holds (Coded fun _ => True) page)
    (hheld : ∃ page₀, Holds (Coded fun _ => True) page₀ ∧
      readPage db.cache.disk.storage p = .ok (image page₀) ∧ versions page₀ = versions page)
    (hwork : ∀ entry ∈ work, SlotHolds page (slotAt entry) (tupleAt entry))
    (hnodup : (work.map slotAt).Nodup) (h : loop work page db = .ok () db') :
    PageChanged
      (changesFrom fateOf (room page) db.wal.currentXid
        (work.map fun entry => (tupleAt entry, dataAt entry)))
      p (versions page) db db' := by
  induction work generalizing page db with
  | nil =>
      rw [hnil] at h
      cases h
      obtain ⟨page₀, hpage₀, hread, hversions⟩ := hheld
      refine ⟨rfl, (UInt64.add_zero _).symm, fun _ _ => rfl, page₀, hpage₀, hread, ?_⟩
      rw [hversions]
      exact exchanged_nil _
  | cons entry work ih =>
      obtain ⟨hnot, hnodup⟩ := List.nodup_cons.mp hnodup
      rw [hcons] at h
      obtain ⟨page₁, db₁, hfirst, hrest⟩ := bind_eq_ok.mp h
      have hstep := hbody entry page page₁ db db₁ hpage (hwork entry List.mem_cons_self) hfirst
      obtain ⟨hchange, hroom⟩ := hstep.changed _ _ rfl rfl
      have hread : readPage db₁.cache.disk.storage p = .ok (image page₁) := by
        rw [hstep.cache_eq]
        exact LawfulStorage.read_write_self _ _ _
      have hothers : ∀ other ∈ work, SlotHolds page₁ (slotAt other) (tupleAt other) := by
        intro other hother
        apply hstep.others _ _ _ (hwork other (List.mem_cons_of_mem _ hother))
        intro heq
        exact hnot (List.mem_map.mpr ⟨other, hother, heq⟩)
      have htail := ih hstep.holds ⟨page₁, hstep.holds, hread, rfl⟩ hothers hnodup hrest
      rw [hroom, hstep.xid_eq] at htail
      refine PageChanged.cons ?_ hstep.xid_eq ?_ hchange htail
      · rw [hstep.cache_eq]
        rfl
      · intro q hq
        rw [hstep.cache_eq]
        exact LawfulStorage.read_write_of_ne _ _ _ _ hq

/-- The changes were made to the stored pages `ids`. -/
structure RelationChanged (changes : List Change) (ids : List PageId) (db db' : Database σ) :
    Prop where
  rels_eq : db'.cache.rels = db.cache.rels
  untouched : ∀ q, q ∉ ids → readPage db'.cache.disk.storage q = readPage db.cache.disk.storage q
  coded : ∀ q ∈ ids, CodedAt (fun _ => True) db'.cache.disk.storage q
  exchanged : Exchanged changes (versionsOn db.cache.disk.storage ids)
    (versionsOn db'.cache.disk.storage ids)

omit [Bincode] [LawfulStorage σ] in
theorem pageOf_congr {storage storage' : σ} {q : PageId}
    (h : readPage storage' q = readPage storage q) : pageOf storage' q = pageOf storage q := by
  rw [pageOf, pageOf, h]

omit [LawfulStorage σ] in
theorem versionsOn_congr {storage storage' : σ} {ids : List PageId}
    (h : ∀ q ∈ ids, readPage storage' q = readPage storage q) :
    versionsOn storage' ids = versionsOn storage ids := by
  unfold versionsOn
  congr 1
  apply List.map_congr_left
  intro q hq
  rw [pageOf_congr (h q hq)]

omit [Bincode] [LawfulStorage σ] in
theorem changesOn_congr (changesAt : HeapPage → UInt64 → List Change) {storage storage' : σ}
    {ids : List PageId} (h : ∀ q ∈ ids, readPage storage' q = readPage storage q) (xid : UInt64) :
    changesOn changesAt storage' ids xid = changesOn changesAt storage ids xid := by
  induction ids generalizing xid with
  | nil => rfl
  | cons q ids ih =>
      rw [changesOn, changesOn, pageOf_congr (h q List.mem_cons_self)]
      simp only [ih fun r hr => h r (List.mem_cons_of_mem _ hr)]

omit [LawfulStorage σ] in
theorem versionsOn_cons {storage : σ} {page : HeapPage} {q : PageId}
    (h : readPage storage q = .ok (image page)) (hpage : WellFormed page) (ids : List PageId) :
    versionsOn storage (q :: ids) = versions page + versionsOn storage ids := by
  have hat : pageOf storage q = some (stored page) := by
    rw [pageOf, h]
    exact deserialize_image hpage
  rw [versionsOn, List.map_cons, List.sum_cons, hat, Option.map_some, Option.getD_some, versions,
    contents_stored]
  rfl

omit [LawfulStorage σ] in
/-- The loop over a relation's pages. -/
theorem pages_changed {changesAt : HeapPage → UInt64 → List Change}
    {loop : List PageId → Proc (Database σ) Nat}
    (body : PageId → HeapPage → Proc (Database σ) Unit) (work : HeapPage → Nat)
    (hwork : ∀ page xid, (changesAt page xid).length = work page) (hnil : loop [] = pure 0)
    (hcons : ∀ q ids, loop (q :: ids) = do
      let page ← readHeapPage q
      body q page
      let rest ← loop ids
      pure (work page + rest))
    (hbody : ∀ q page db db', Holds (Coded fun _ => True) page →
      readPage db.cache.disk.storage q = .ok (image page) →
      body q (stored page) db = .ok () db' →
      PageChanged (changesAt (stored page) db.wal.currentXid) q (versions page) db db')
    {ids : List PageId} {count : Nat} (hnodup : ids.Nodup)
    (hcoded : ∀ q ∈ ids, CodedAt (fun _ => True) db.cache.disk.storage q)
    (h : loop ids db = .ok count db') :
    count = (changesOn changesAt db.cache.disk.storage ids db.wal.currentXid).length ∧
      RelationChanged (changesOn changesAt db.cache.disk.storage ids db.wal.currentXid) ids
        db db' := by
  induction ids generalizing db count with
  | nil =>
      rw [hnil] at h
      cases h
      exact ⟨rfl, rfl, fun _ _ => rfl, by simp, exchanged_nil _⟩
  | cons q ids ih =>
      obtain ⟨hnot, hnodup⟩ := List.nodup_cons.mp hnodup
      obtain ⟨page, hpage, hread⟩ := hcoded q List.mem_cons_self
      have hat : PageAt db.cache.disk.storage q (stored page) :=
        ⟨image page, hread, deserialize_image hpage.wellFormed⟩
      rw [hcons, bind_ok (readHeapPage_eq_ok.mpr ⟨hat, rfl⟩)] at h
      obtain ⟨_, db₁, hfirst, h⟩ := bind_eq_ok.mp h
      obtain ⟨rest, _, hrest, h⟩ := bind_eq_ok.mp h
      cases h
      have hchanged := hbody q page db db₁ hpage hread hfirst
      have hsame : ∀ r ∈ ids, readPage db₁.cache.disk.storage r =
          readPage db.cache.disk.storage r := by
        intro r hr
        apply hchanged.untouched r
        rintro rfl
        exact hnot hr
      obtain ⟨hcount, hrels, huntouched, hcodedRest, hexchanged⟩ := ih hnodup
        (fun r hr => by
          obtain ⟨page', hpage', hread'⟩ := hcoded r (List.mem_cons_of_mem _ hr)
          exact ⟨page', hpage', (hsame r hr).trans hread'⟩) hrest
      rw [changesOn_congr changesAt hsame, hchanged.xid_eq] at hcount hexchanged
      have hchanges : changesOn changesAt db.cache.disk.storage (q :: ids) db.wal.currentXid =
          changesAt (stored page) db.wal.currentXid ++
            changesOn changesAt db.cache.disk.storage ids (db.wal.currentXid +
              UInt64.ofNat (changesAt (stored page) db.wal.currentXid).length) := by
        rw [changesOn, pageOf_eq_some.mpr hat]
        rfl
      obtain ⟨page', hpage', hread', hexchange⟩ := hchanged.held
      have hlast : readPage db'.cache.disk.storage q = .ok (image page') :=
        (huntouched q hnot).trans hread'
      rw [hchanges]
      refine ⟨?_, hrels.trans hchanged.rels_eq, ?_, ?_, ?_⟩
      · rw [List.length_append, hcount, hwork]
      · intro r hr
        obtain ⟨hne, hr⟩ := List.ne_and_not_mem_of_not_mem_cons hr
        exact (huntouched r hr).trans (hchanged.untouched r hne)
      · intro r hr
        rcases List.mem_cons.mp hr with rfl | hr
        · exact ⟨page', hpage', hlast⟩
        · exact hcodedRest r hr
      · rw [versionsOn_cons hread hpage.wellFormed, versionsOn_cons hlast hpage'.wellFormed]
        rw [versionsOn_congr hsame] at hexchanged
        exact hexchange.add hexchanged

variable [LawfulBincode]

/-- The changes of `tuple_delete` on a page. -/
def deleteChanges (desc : TupleDesc) (filter : Option Filter) (page : HeapPage) (xid : UInt64) :
    List Change :=
  changesFrom deleteFate (room page) xid
    ((matchingTuples page desc filter).map fun entry => (entry.2, entry.2.data))

/-- The changes of `tuple_update` on a page. -/
def updateChanges (desc : TupleDesc) (columnIdx : Nat) (newValue : Bytes) (filter : Option Filter)
    (page : HeapPage) (xid : UInt64) : List Change :=
  changesFrom updateFate (room page) xid
    ((tuplesToUpdate page desc columnIdx newValue filter).map fun entry =>
      (entry.2.1, entry.2.2))

theorem tupleDelete_changed {relOid : Oid} {rel : Relation} {filter : Option Filter} {count : Nat}
    (hrel : db.cache.rels.lookup relOid = some rel) (hnodup : rel.pages.Nodup)
    (hcoded : ∀ q ∈ rel.pages, CodedAt (fun _ => True) db.cache.disk.storage q)
    (h : tupleDelete relOid filter db = .ok count db') :
    count = (changesOn (deleteChanges rel.tupleDesc filter) db.cache.disk.storage rel.pages
        db.wal.currentXid).length ∧
      RelationChanged (changesOn (deleteChanges rel.tupleDesc filter) db.cache.disk.storage
        rel.pages db.wal.currentXid) rel.pages db db' := by
  have hget : onCache (getRelationState relOid) db = .ok rel db :=
    getRelationState_eq_ok.mpr ⟨hrel, rfl⟩
  rw [tupleDelete, bind_ok hget] at h
  refine pages_changed
    (fun q page => deleteTuples relOid q (matchingTuples page rel.tupleDesc filter) page)
    (fun page => (matchingTuples page rel.tupleDesc filter).length) ?_ rfl (fun _ _ => rfl) ?_
    hnodup hcoded h
  · intro page xid
    rw [deleteChanges, changesFrom_length, List.length_map]
  · intro q page db db' hpage hread hdelete
    have hversions : versions (stored page) = versions page := by
      rw [versions, versions, contents_stored]
    rw [← hversions]
    exact tuples_changed (fun entry page => deleteTuple relOid q page entry.1 entry.2) Prod.fst
      Prod.snd (fun entry => entry.2.data) (fun _ => rfl) (fun _ _ _ => rfl)
      (fun _ _ _ _ _ => deleteTuple_stepped) (holds_stored hpage)
      ⟨page, hpage, hread, hversions.symm⟩
      (fun entry hentry => (matchingTuples_holds hpage hentry).1) (matchingTuples_nodup _ _ _)
      hdelete

theorem tupleUpdate_changed {relOid : Oid} {rel : Relation} {columnIdx : Nat} {newValue : Bytes}
    {filter : Option Filter} {count : Nat} (hrel : db.cache.rels.lookup relOid = some rel)
    (hnodup : rel.pages.Nodup)
    (hcoded : ∀ q ∈ rel.pages, CodedAt (fun _ => True) db.cache.disk.storage q)
    (h : tupleUpdate relOid columnIdx newValue filter db = .ok count db') :
    count = (changesOn (updateChanges rel.tupleDesc columnIdx newValue filter)
        db.cache.disk.storage rel.pages db.wal.currentXid).length ∧
      RelationChanged (changesOn (updateChanges rel.tupleDesc columnIdx newValue filter)
        db.cache.disk.storage rel.pages db.wal.currentXid) rel.pages db db' := by
  have hget : onCache (getRelationState relOid) db = .ok rel db :=
    getRelationState_eq_ok.mpr ⟨hrel, rfl⟩
  rw [tupleUpdate, bind_ok hget] at h
  refine pages_changed
    (fun q page => updateTuples relOid q
      (tuplesToUpdate page rel.tupleDesc columnIdx newValue filter) page)
    (fun page => (tuplesToUpdate page rel.tupleDesc columnIdx newValue filter).length) ?_ rfl
    (fun _ _ => rfl) ?_ hnodup hcoded h
  · intro page xid
    rw [updateChanges, changesFrom_length, List.length_map]
  · intro q page db db' hpage hread hupdate
    have hversions : versions (stored page) = versions page := by
      rw [versions, versions, contents_stored]
    rw [← hversions]
    exact tuples_changed
      (fun entry page => updateTuple relOid q page entry.1 entry.2.1 entry.2.2) Prod.fst
      (fun entry => entry.2.1) (fun entry => entry.2.2) (fun _ => rfl) (fun _ _ _ => rfl)
      (fun _ _ _ _ _ => updateTuple_stepped) (holds_stored hpage)
      ⟨page, hpage, hread, hversions.symm⟩
      (fun entry hentry => (matchingTuples_holds hpage (mem_tuplesToUpdate hentry)).1)
      (tuplesToUpdate_nodup _ _ _ _ _) hupdate

end Loops

section Insert

variable [Bincode] {σ : Type} [StorageTrait σ] {relOid : Oid} {rel : Relation}
  {values : List Bytes} {db db' : Database σ}

/-- A page of its own has room for the tuple. -/
def FitsPage (tup : Tuple) : Prop :=
  encodedLength tup + linePointerSize ≤ pageSize - pageHeaderSize

instance (tup : Tuple) : Decidable (FitsPage tup) := inferInstanceAs (Decidable (_ ≤ _))

theorem versionsOn_append (storage : σ) (ids ids' : List PageId) :
    versionsOn storage (ids ++ ids') = versionsOn storage ids + versionsOn storage ids' := by
  rw [versionsOn, List.map_append, List.sum_append]
  rfl

theorem versionsOn_singleton {storage : σ} {page : HeapPage} {q : PageId}
    (h : readPage storage q = .ok (image page)) (hpage : WellFormed page) :
    versionsOn storage [q] = versions page := by
  rw [versionsOn_cons h hpage]
  exact add_zero _

omit [Bincode] [StorageTrait σ] in
/-- The page inserts go to is the last one. -/
theorem openPage_not_mem {front : List PageId}
    (hincreasing : rel.pages.Pairwise fun p q => p.val < q.val)
    (hfront : openPages rel = front ++ [openPage rel]) : openPage rel ∉ front := by
  intro hmem
  have hpairwise := openPages_increasing hincreasing
  rw [hfront] at hpairwise
  exact absurd ((List.pairwise_append.mp hpairwise).2.2 _ hmem _ (List.mem_singleton_self _))
    (UInt32.lt_irrefl _)

theorem versions_new : versions HeapPage.new = 0 := rfl

variable [LawfulStorage σ]

theorem versionsOn_open (storage : σ) (rel : Relation) :
    versionsOn (openStorage storage rel) (openPages rel) = versionsOn storage rel.pages := by
  cases hlast : rel.pages.getLast? with
  | none =>
      have hread : readPage (openStorage storage rel) ⟨1⟩ = .ok (image HeapPage.new) := by
        simp only [openStorage, hlast]
        exact LawfulStorage.read_write_self _ _ _
      rw [List.getLast?_eq_none_iff.mp hlast]
      simp only [openPages, hlast]
      rw [versionsOn_singleton hread wellFormed_new, versions_new]
      rfl
  | some p => simp only [openStorage, openPages, hlast]

section

variable [LawfulBincode] {page page' : HeapPage} {tup : Tuple} {encoded : Bytes}
  {used : Option UInt16}

omit [Bincode] [StorageTrait σ] [LawfulStorage σ] [LawfulBincode] in
theorem freeSpace_le (hpage : WellFormed page) :
    freeSpace page + (if deadSlots page = 0 then 0 else linePointerSize) ≤
      pageSize - pageHeaderSize := by
  have hlower := hpage.lower_eq
  have hupper := hpage.upper_le
  have hroom := hpage.lower_le_upper
  have hdead : deadSlots page ≤ page.linePointers.length := List.length_filter_le _ _
  unfold freeSpace
  simp only [linePointerSize, pageSize, pageHeaderSize] at *
  split
  · omega
  · omega

omit [StorageTrait σ] [LawfulStorage σ] in
theorem versions_addTuple (hpage : WellFormed page) (hcode : serializeTuple tup = .ok encoded)
    (h : page.addTuple encoded = some (page', used)) (hused : used ≠ none) :
    FitsPage tup ∧ versions page' = versions page + {tup} := by
  have hfree := freeSpace_le hpage
  have hadd : (contents page' : Multiset Bytes) = (contents page : Multiset Bytes) + {encoded} →
      versions page' = versions page + {tup} := by
    intro hcontents
    rw [versions, versions, hcontents, decodable_add, decodable_singleton hcode]
  unfold FitsPage
  rw [encodedLength_eq hcode]
  rcases addTuple_outcome hpage h with
    ⟨_, hdead, hfits, _, _, hcontents⟩ | ⟨_, hdead, hfits, _, _, hcontents⟩ | ⟨hnone, _⟩
  · rw [if_neg hdead] at hfree
    exact ⟨by omega, hadd hcontents⟩
  · rw [if_pos hdead] at hfree
    exact ⟨by omega, hadd hcontents⟩
  · exact absurd hnone hused

omit [StorageTrait σ] [LawfulStorage σ] in
theorem versions_newPage (hcode : serializeTuple tup = .ok encoded)
    (h : HeapPage.new.addTuple encoded = some (page', used)) :
    versions page' = if FitsPage tup then {tup} else 0 := by
  by_cases hused : used = none
  · subst hused
    obtain ⟨rfl, hfull⟩ := addTuple_none h
    rw [if_neg, versions_new]
    unfold FitsPage
    rw [encodedLength_eq hcode]
    have hlower : HeapPage.new.header.pdLower.toNat = pageHeaderSize := by decide
    have hupper : HeapPage.new.header.pdUpper.toNat = pageSize := by decide
    have hdead : deadSlots HeapPage.new = 0 := rfl
    rw [hlower, hupper, if_pos hdead] at hfull
    simp only [linePointerSize, pageSize, pageHeaderSize] at hfull ⊢
    omega
  · obtain ⟨hfits, hversions⟩ := versions_addTuple wellFormed_new hcode h hused
    rw [hversions, if_pos hfits, versions_new, zero_add]

/-- A tuple that fits a page of its own is added, and no other version changes. -/
theorem tupleInsert_versions (hrel : db.cache.rels.lookup relOid = some rel)
    (hincreasing : rel.pages.Pairwise fun p q => p.val < q.val)
    (hcoded : ∀ q ∈ rel.pages, CodedAt (fun _ => True) db.cache.disk.storage q)
    (h : tupleInsert relOid values db = .ok () db') :
    ∃ rel', db'.cache.rels.lookup relOid = some rel' ∧ rel'.tupleDesc = rel.tupleDesc ∧
      (∀ q ∈ rel'.pages, CodedAt (fun _ => True) db'.cache.disk.storage q) ∧
      versionsOn db'.cache.disk.storage rel'.pages =
        versionsOn db.cache.disk.storage rel.pages +
          if FitsPage (newTuple values db.wal.currentXid) then
            {newTuple values db.wal.currentXid} else 0 := by
  have hins : Inserted db.cache relOid (newTuple values db.wal.currentXid) db'.cache :=
    tupleInsert_state (by rw [h]; rfl)
  obtain ⟨_, rel', hrel', hdesc, _, hincreasing'⟩ := inserted_grows hincreasing hins hrel
  have hcoded' : ∀ q ∈ rel'.pages, CodedAt (fun _ => True) db'.cache.disk.storage q :=
    fun q hq => inserted_codedAt hins hrel hrel' trivial hq (hcoded q) (hcoded _)
  refine ⟨rel', hrel', hdesc, hcoded', ?_⟩
  obtain ⟨page, encoded, hpage, hcode, hcases⟩ := tupleInsert_eq_ok hrel h
  obtain ⟨page₀, hholds, rfl⟩ := holds_of_pageAt (codedAt_open (hcoded _)) hpage
  obtain ⟨front, hfront⟩ := openPages_snoc rel
  have hwf := wellFormed_stored hholds.wellFormed
  have hne := serializeTuple_ne_nil hcode
  have hnotMem : openPage rel ∉ front := openPage_not_mem hincreasing hfront
  obtain ⟨page₁, hholds₁, hread₁⟩ :=
    @codedAt_open _ _ _ (fun _ => True) rel db.cache.disk.storage _ (hcoded _)
  have hsame : stored page₁ = stored page₀ :=
    pageAt_unique ⟨_, hread₁, deserialize_image hholds₁.wellFormed⟩ hpage
  have hversions₁ : versions page₁ = versions (stored page₀) := by
    rw [← hsame, versions, versions, contents_stored]
  have hbefore : versionsOn db.cache.disk.storage rel.pages =
      versionsOn (openStorage db.cache.disk.storage rel) front + versions (stored page₀) := by
    rw [← versionsOn_open, hfront, versionsOn_append,
      versionsOn_singleton hread₁ hholds₁.wellFormed, hversions₁]
  rcases hcases with ⟨page', slot, data, hadd, hdata, hcache⟩ |
    ⟨next, page', slot, data, data', hadd, hnext, hnew, hdata', hdata, hcache⟩
  · obtain ⟨hfits, hversions⟩ := versions_addTuple hwf hcode hadd (Option.some_ne_none _)
    have hwf' := wellFormed_addTuple hwf hne hadd
    obtain rfl := serialize_image hwf' hdata
    rw [hcache] at hrel' ⊢
    simp only [AList.lookup_insert, Option.some.injEq] at hrel'
    subst hrel'
    simp only [withStorage]
    rw [if_pos hfits, hfront, versionsOn_append, versionsOn_singleton
      (LawfulStorage.read_write_self _ _ _) hwf', hversions, hbefore, add_assoc]
    congr 1
    apply versionsOn_congr
    intro q hq
    apply LawfulStorage.read_write_of_ne
    rintro rfl
    exact hnotMem hq
  · have hwf' := wellFormed_addTuple wellFormed_new hne hnew
    obtain rfl := serialize_image hwf' hdata'
    obtain rfl := serialize_image hwf hdata
    rw [hcache] at hrel' ⊢
    simp only [AList.lookup_insert, Option.some.injEq] at hrel'
    subst hrel'
    have hbelow : ∀ q ∈ openPages rel, q ≠ next := by
      rintro q hq rfl
      exact absurd ((List.pairwise_append.mp hincreasing').2.2 q hq q (List.mem_singleton_self _))
        (UInt32.lt_irrefl _)
    have hopen : openPage rel ≠ next := hbelow _ (openPage_mem_openPages rel)
    simp only [withStorage]
    rw [hfront, versionsOn_append, versionsOn_append, versionsOn_singleton
      (LawfulStorage.read_write_self _ _ _) hwf, versionsOn_singleton
      ((LawfulStorage.read_write_of_ne _ _ _ _ hopen.symm).trans
        (LawfulStorage.read_write_self _ _ _)) hwf', versions_newPage hcode hnew, hbefore]
    congr 2
    apply versionsOn_congr
    intro q hq
    have hqo : q ≠ openPage rel := by
      rintro rfl
      exact hnotMem hq
    rw [LawfulStorage.read_write_of_ne _ _ _ _ hqo, LawfulStorage.read_write_of_ne _ _ _ _
      (hbelow q (by rw [hfront]; exact List.mem_append_left _ hq))]

end

end Insert

section Completed

variable {σ : Type} [StorageTrait σ] [LawfulStorage σ] {page : HeapPage} {db : Database σ}
  {p : PageId} {slot : Nat} {tup : Tuple}

theorem serializeTuple_ok {tup : Tuple} (h : Encodable tup) :
    serializeTuple tup = .ok (encodeTuple tup) := if_pos h

omit [StorageTrait σ] [LawfulStorage σ] in
theorem onWal_append_ok (cache : SharedBufferCache σ) {wal : WAL} {record : WALRecord}
    {count : Nat} (hwal : Ready wal (count + 1)) (hsize : (encodeRecord record).length ≤ 8192) :
    ∃ lsn db', onWal (append record) ⟨cache, wal⟩ = .ok lsn db' ∧ Ready db'.wal count := by
  obtain ⟨lsn, wal', happend, hready, _⟩ := append_ok hwal rfl hsize
  exact ⟨lsn, ⟨cache, wal'⟩, onWal_ok happend, hready⟩

omit [StorageTrait σ] [LawfulStorage σ] in
theorem hotUpdate_some {bytes : Bytes} (hpage : WellFormed page) (hslot : SlotHolds page slot tup)
    (hupper : bytes.length ≤ page.header.pdUpper.toNat) :
    ∃ page' hotSlot, page.hotUpdate (UInt16.ofNat slot) bytes = some (page', hotSlot) ∧
      ∀ newSlot old, hotSlot = some newSlot →
        (page'.setTuple slot old).tuples[newSlot.toNat]? = some bytes := by
  have hlt := hslot.lt
  have hbound := linePointers_lt hpage
  have hval : (UInt16.ofNat slot).toNat = slot := by
    rw [UInt16.toNat_ofNat']
    exact Nat.mod_eq_of_lt (by omega)
  have hnew : (UInt16.ofNat page.linePointers.length).toNat = page.tuples.length := by
    rw [UInt16.toNat_ofNat', hpage.length_eq]
    exact Nat.mod_eq_of_lt hbound
  obtain ⟨lp, old, hlp, hnormal, hold, hcode⟩ := hslot
  unfold HeapPage.hotUpdate
  simp only [hval, hlp, hnormal, ne_eq, not_true_eq_false, if_false, checkedSub, if_pos hupper,
    Option.bind_eq_bind, Option.bind_some]
  split
  · exact ⟨page, none, rfl, fun _ _ hnone => by cases hnone⟩
  · refine ⟨_, _, rfl, ?_⟩
    rintro newSlot old' hsome
    cases hsome
    rw [hnew, HeapPage.setTuple, List.getElem?_set_ne (by omega)]
    simp

omit [StorageTrait σ] [LawfulStorage σ] in
theorem addTuple_some {bytes : Bytes} (hupper : bytes.length ≤ page.header.pdUpper.toNat) :
    ∃ page' used, page.addTuple bytes = some (page', used) := by
  unfold HeapPage.addTuple
  simp only [checkedSub, if_pos hupper, Option.bind_eq_bind, Option.bind_some]
  cases page.linePointers.findIdx? (fun lp => decide (lp.lpFlags = lpDead)) with
  | none =>
      simp only [Option.map_none, Option.isNone_none, if_true]
      split
      · exact ⟨_, _, rfl⟩
      · exact ⟨_, _, rfl⟩
  | some i =>
      simp only [Option.map_some, Option.isNone_some, Bool.false_eq_true, if_false]
      split
      · exact ⟨_, _, rfl⟩
      · exact ⟨_, _, rfl⟩

/-- An update of a version whose record fits a segment page completes if its next
version is no longer than the page's tuple area. -/
theorem updateTuple_ok (relOid : Oid) {newData : Bytes} {count : Nat}
    (hpage : Holds (Coded fun _ => True) page) (hslot : SlotHolds page slot tup)
    (hslots : tup.slots.length < 2 ^ 64) (hdata : tup.data.length < 2 ^ 64)
    (hupper : (encodeTuple { tup with data := newData }).length ≤ page.header.pdUpper.toNat)
    (hsize : (encodeTuple tup).length + (encodeTuple { tup with data := newData }).length + 12 ≤
      8192)
    (hwal : Ready db.wal (count + 1)) :
    ∃ page' db', updateTuple relOid p page slot tup newData db = .ok page' db' ∧
      Ready db'.wal count := by
  set xid := db.wal.currentXid with hxid
  have hlength : (encodeTuple { tup with xmin := xid, xmax := 0, data := newData }).length =
      (encodeTuple { tup with data := newData }).length := by
    rw [encodeTuple_length, encodeTuple_length]
  have hlength' : (encodeTuple { tup with xmax := xid }).length = (encodeTuple tup).length := by
    rw [encodeTuple_length, encodeTuple_length]
  have hnew : serializeTuple { tup with xmin := xid, xmax := 0, data := newData } =
      .ok (encodeTuple { tup with xmin := xid, xmax := 0, data := newData }) := by
    refine serializeTuple_ok ⟨hslots, ?_⟩
    rw [encodeTuple_length] at hsize
    rw [encodeTuple_length] at hsize
    simp only at hsize ⊢
    omega
  have hold : serializeTuple { tup with xmax := xid } =
      .ok (encodeTuple { tup with xmax := xid }) := serializeTuple_ok ⟨hslots, hdata⟩
  obtain ⟨page₁, hotSlot, hhot, hadded⟩ := hotUpdate_some hpage.wellFormed hslot
    (hlength.trans_le hupper)
  have hlt : slot < page₁.tuples.length := by
    obtain ⟨_, old, _, _, htuple, _⟩ := id hslot
    exact (List.getElem?_eq_some_iff.mp ((hotUpdate_getElem? hhot hslot.lt.2).trans htuple)).1
  have hpage₂ := holds_hotStamped hpage hslot hnew hold hhot
  have hwal₁ : Ready { db.wal with currentXid := xid + 1 } (count + 1) :=
    ⟨hwal.segment_pos, hwal.page_length, hwal.lsn_lt⟩
  have hreplace : replaceTuple page₁ slot (encodeTuple { tup with xmax := xid }) =
      some (page₁.setTuple slot (encodeTuple { tup with xmax := xid })) := if_pos hlt
  have hrecord : ∀ newTup, encodeTuple newTup =
        encodeTuple { tup with xmin := xid, xmax := 0, data := newData } →
      (encodeRecord (.update relOid p { tup with xmax := xid } newTup)).length ≤ 8192 := by
    intro newTup heq
    simp only [encodeRecord, List.length_append, toLeBytes_length, heq, hlength, hlength']
    omega
  rw [updateTuple, bind_ok (allocateXid_apply db), hnew, bind_ok (ofExcept_ok _ _), hhot,
    bind_ok (orPanic_some _ _)]
  simp only
  rw [hold, bind_ok (ofExcept_ok _ _), hreplace, bind_ok (orPanic_some _ _)]
  cases hotSlot with
  | some newSlot =>
      have hdecoded := LawfulBincode.deserialize_serialize hnew
      simp only
      rw [bind_ok (writeHeapPage_ok (serialize_eq_image hpage₂.wellFormed)),
        hadded newSlot _ rfl, bind_ok (orPanic_some _ _), hdecoded, bind_ok (ofExcept_ok _ _)]
      obtain ⟨_, db', happend, hready⟩ := onWal_append_ok _ hwal₁ (hrecord _ rfl)
      exact ⟨_, db', bind_ok happend, hready⟩
  | none =>
      obtain ⟨page₃, used, hadd⟩ : ∃ page₃ used,
          (page₁.setTuple slot (encodeTuple { tup with xmax := xid })).addTuple
            (encodeTuple { tup with xmin := xid, xmax := 0, data := newData }) =
              some (page₃, used) := by
        obtain ⟨rfl, -⟩ | ⟨_, _, _, _, _, hnone, _⟩ := hotUpdate_cases hhot
        · exact addTuple_some (hlength.trans_le hupper)
        · cases hnone
      have hpage₃ := holds_addTuple hpage₂ (serializeTuple_ne_nil hnew) ⟨_, hnew, trivial⟩ hadd
      simp only
      rw [bind_ok (ofExcept_ok _ _), hadd, bind_ok (orPanic_some _ _)]
      simp only
      rw [bind_ok (writeHeapPage_ok (serialize_eq_image hpage₃.wellFormed))]
      obtain ⟨_, db', happend, hready⟩ := onWal_append_ok _ hwal₁ (hrecord _ rfl)
      exact ⟨_, db', bind_ok happend, hready⟩

/-- An update that finds one version, on the relation's only page. -/
theorem tupleUpdate_single {relOid : Oid} {rel : Relation} {columnIdx : Nat}
    {newValue newData : Bytes} {filter : Option Filter} {count : Nat}
    (hrel : db.cache.rels.lookup relOid = some rel) (hpages : rel.pages = [p])
    (hpage : Holds (Coded fun _ => True) page)
    (hread : readPage db.cache.disk.storage p = .ok (image page))
    (hwork : tuplesToUpdate (stored page) rel.tupleDesc columnIdx newValue filter =
      [(slot, tup, newData)])
    (hslots : tup.slots.length < 2 ^ 64) (hdata : tup.data.length < 2 ^ 64)
    (hupper : (encodeTuple { tup with data := newData }).length ≤
      (stored page).header.pdUpper.toNat)
    (hsize : (encodeTuple tup).length + (encodeTuple { tup with data := newData }).length + 12 ≤
      8192)
    (hwal : Ready db.wal (count + 1)) :
    ∃ db', tupleUpdate relOid columnIdx newValue filter db = .ok 1 db' ∧ Ready db'.wal count := by
  have hget : onCache (getRelationState relOid) db = .ok rel db :=
    getRelationState_eq_ok.mpr ⟨hrel, rfl⟩
  have hat : PageAt db.cache.disk.storage p (stored page) :=
    ⟨image page, hread, deserialize_image hpage.wellFormed⟩
  have hmem : (slot, tup, newData) ∈
      tuplesToUpdate (stored page) rel.tupleDesc columnIdx newValue filter := by
    rw [hwork]
    exact List.mem_singleton_self _
  have hslot := (matchingTuples_holds hpage (mem_tuplesToUpdate hmem)).1
  obtain ⟨page', db', hupdate, hready⟩ := updateTuple_ok relOid (holds_stored hpage) hslot hslots
    hdata hupper hsize hwal
  refine ⟨db', ?_, hready⟩
  rw [tupleUpdate, bind_ok hget, hpages, updatePages,
    bind_ok (readHeapPage_eq_ok.mpr ⟨hat, rfl⟩), hwork]
  simp only [updateTuples]
  have hloop : (do
      let _ ← updateTuple relOid p (stored page) slot tup newData
      pure () : Proc (Database σ) Unit) db = .ok () db' := bind_ok hupdate
  rw [bind_ok hloop]
  rfl

end Completed

end PostgressRs.Executor.VersionChanges
