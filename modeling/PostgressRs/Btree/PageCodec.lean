import PostgressRs.Btree.IndexPage
import PostgressRs.Storage.PageRoundTrip

/-!
The B-tree page codec.  The writer stops at the first entry that does not fit;
the reader stops at the zeros behind the last entry.
-/

namespace PostgressRs.Btree.PageCodec

open PostgressRs.Btree.IndexPage
open PostgressRs.Lib.ByteBuffer
open PostgressRs.Lib.Procedure
open PostgressRs.Storage.PageRoundTrip
open PostgressRs.Storage.PageStore
open PostgressRs.Types

def encodeEntry (tuple : IndexTuple) : Bytes :=
  toLeBytes 4 tuple.key.length ++ tuple.key ++ toLeBytes 4 tuple.heapPointer.1.toNat ++
    toLeBytes 2 tuple.heapPointer.2.toNat

def encodeEntries (tuples : List IndexTuple) : Bytes :=
  (tuples.map encodeEntry).flatten

/-- An entry as it comes back from its page. -/
def unowned (tuple : IndexTuple) : IndexTuple :=
  { tuple with heapOid := ⟨0⟩ }

/-- The length of the key has a place in its entry. -/
def Measurable (tuple : IndexTuple) : Prop :=
  tuple.key.length < 2 ^ 32

/-- Keys that never fill a page before it counts as full. -/
structure Indexable (tuple : IndexTuple) : Prop where
  nonempty : tuple.key ≠ []
  short : tuple.key.length ≤ 53

theorem Indexable.measurable {tuple : IndexTuple} (h : Indexable tuple) : Measurable tuple :=
  lt_of_le_of_lt h.short (by decide)

/-- The entries that are written into `room` bytes. -/
def fitting : Nat → List IndexTuple → List IndexTuple
  | _, [] => []
  | room, tuple :: tuples =>
      if tuple.key.length + 10 ≤ room then
        tuple :: fitting (room - (tuple.key.length + 10)) tuples
      else []

theorem encodeEntry_length (tuple : IndexTuple) :
    (encodeEntry tuple).length = tuple.key.length + 10 := by
  simp [encodeEntry]
  omega

theorem encodeEntries_cons (tuple : IndexTuple) (tuples : List IndexTuple) :
    encodeEntries (tuple :: tuples) = encodeEntry tuple ++ encodeEntries tuples := rfl

theorem encodeEntries_length (tuples : List IndexTuple) :
    (encodeEntries tuples).length = (tuples.map fun tuple => tuple.key.length + 10).sum := by
  simp [encodeEntries, List.length_flatten, Function.comp_def, encodeEntry_length]

theorem fitting_sublist (room : Nat) (tuples : List IndexTuple) :
    (fitting room tuples).Sublist tuples := by
  induction tuples generalizing room with
  | nil => exact List.Sublist.refl _
  | cons tuple tuples ih =>
      unfold fitting
      split
      · exact (ih _).cons_cons tuple
      · exact List.nil_sublist _

theorem encodeEntries_fitting_le (room : Nat) (tuples : List IndexTuple) :
    (encodeEntries (fitting room tuples)).length ≤ room := by
  induction tuples generalizing room with
  | nil => exact Nat.zero_le _
  | cons tuple tuples ih =>
      unfold fitting
      split
      · have htail := ih (room - (tuple.key.length + 10))
        rw [encodeEntries_cons, List.length_append, encodeEntry_length]
        omega
      · exact Nat.zero_le _

/-- All entries are written exactly if their bytes fit. -/
theorem fitting_eq_iff {room : Nat} {tuples : List IndexTuple} :
    fitting room tuples = tuples ↔ (encodeEntries tuples).length ≤ room := by
  constructor
  · intro h
    have hle := encodeEntries_fitting_le room tuples
    rwa [h] at hle
  · intro h
    induction tuples generalizing room with
    | nil => rfl
    | cons tuple tuples ih =>
        rw [encodeEntries_cons, List.length_append, encodeEntry_length] at h
        rw [fitting, if_pos (by omega), ih (by omega)]

theorem encodeEntries_length_le {tuples : List IndexTuple}
    (h : ∀ tuple ∈ tuples, Indexable tuple) :
    (encodeEntries tuples).length ≤ 63 * tuples.length := by
  induction tuples with
  | nil => simp [encodeEntries]
  | cons tuple tuples ih =>
      have htail := ih fun other hother => h other (List.mem_cons_of_mem _ hother)
      have hshort := (h tuple List.mem_cons_self).short
      simp only [encodeEntries, List.map_cons, List.flatten_cons, List.length_append,
        encodeEntry_length, List.length_cons] at htail ⊢
      omega

/-- One copy into the zeros that follow what is written. -/
theorem copyFromSlice_zeros (written src : Bytes) (room : Nat) (h : src.length ≤ room) :
    copyFromSlice (written ++ List.replicate room 0) written.length src =
      some ((written ++ src) ++ List.replicate (room - src.length) 0) := by
  have hroom : List.replicate room (0 : UInt8) =
      List.replicate src.length 0 ++ List.replicate (room - src.length) 0 := by
    rw [List.replicate_append_replicate, Nat.add_sub_cancel' h]
  rw [hroom, ← List.append_assoc]
  exact copyFromSlice_append written _ _ src written.length rfl (by simp)

theorem writeEntries_eq (tuples : List IndexTuple) (pageSize room : Nat) (written : Bytes)
    (h : ∀ tuple ∈ tuples, Measurable tuple) (hsize : pageSize = written.length + room) :
    writeEntries pageSize tuples (written ++ List.replicate room 0) written.length =
      some (written ++ encodeEntries (fitting room tuples) ++
        List.replicate (room - (encodeEntries (fitting room tuples)).length) 0) := by
  induction tuples generalizing room written with
  | nil => simp [writeEntries, encodeEntries, fitting]
  | cons tuple tuples ih =>
      have hkeyLen : tuple.key.length % 2 ^ 32 = tuple.key.length :=
        Nat.mod_eq_of_lt (h tuple List.mem_cons_self)
      rw [writeEntries, hkeyLen, fitting]
      by_cases hfits : tuple.key.length + 10 ≤ room
      · rw [if_neg (by omega), if_pos hfits, encodeEntries_cons, List.length_append,
          encodeEntry_length]
        have hkey := copyFromSlice_zeros written (toLeBytes 4 tuple.key.length) room
          (by simp; omega)
        have hdata := copyFromSlice_zeros (written ++ toLeBytes 4 tuple.key.length) tuple.key
          (room - 4) (by omega)
        have hpage := copyFromSlice_zeros
          (written ++ toLeBytes 4 tuple.key.length ++ tuple.key)
          (toLeBytes 4 tuple.heapPointer.1.toNat) (room - 4 - tuple.key.length) (by simp; omega)
        have hoffset := copyFromSlice_zeros
          (written ++ toLeBytes 4 tuple.key.length ++ tuple.key ++
            toLeBytes 4 tuple.heapPointer.1.toNat)
          (toLeBytes 2 tuple.heapPointer.2.toNat) (room - 4 - tuple.key.length - 4)
          (by simp; omega)
        simp only [List.length_append, toLeBytes_length] at hkey hdata hpage hoffset
        simp only [hkey, hdata, hpage, hoffset, if_true, Option.bind_eq_bind, Option.bind_some]
        have htail := ih (room - (tuple.key.length + 10)) (written ++ encodeEntry tuple)
          (fun other hother => h other (List.mem_cons_of_mem _ hother))
          (by rw [List.length_append, encodeEntry_length]; omega)
        rw [List.length_append, encodeEntry_length] at htail
        have hroom : room - 4 - tuple.key.length - 4 - 2 = room - (tuple.key.length + 10) := by
          omega
        have hpos : written.length + 4 + tuple.key.length + 4 + 2 =
            written.length + (tuple.key.length + 10) := by
          omega
        have hleft : ∀ count, room - (tuple.key.length + 10 + count) =
            room - (tuple.key.length + 10) - count := by
          intro count
          omega
        rw [hroom, hpos, hleft]
        simpa [encodeEntry, List.append_assoc] using htail
      · rw [if_pos (by omega), if_neg hfits]
        simp [encodeEntries]

/-- An entry that is read back, and not as the zeros behind the last one. -/
structure Readable (tuple : IndexTuple) : Prop where
  nonempty : tuple.key ≠ []
  measurable : Measurable tuple

theorem Indexable.readable {tuple : IndexTuple} (h : Indexable tuple) : Readable tuple :=
  ⟨h.nonempty, h.measurable⟩

/-- The zeros behind the last entry are a key of length zero. -/
theorem readEntries_zeros (count room : Nat) (front : Bytes) :
    readEntries (front ++ List.replicate room 0) count front.length = some [] := by
  cases count with
  | zero => rfl
  | succ count =>
      rw [readEntries]
      by_cases hroom : room < 10
      · rw [if_pos (by simp; omega)]
        rfl
      · have hsplit : front ++ List.replicate room (0 : UInt8) =
            front ++ List.replicate 4 0 ++ List.replicate (room - 4) 0 := by
          rw [List.append_assoc, List.replicate_append_replicate]
          congr 2
          omega
        have hslice : slice (front ++ List.replicate room (0 : UInt8)) front.length
            (front.length + 4) = some (List.replicate 4 0) := by
          rw [hsplit]
          exact slice_append _ _ _ _ _ rfl (by simp)
        have hzero : fromLeBytes (List.replicate 4 0) = 0 := rfl
        rw [if_neg (by simp; omega), hslice]
        simp only [Option.bind_eq_bind, Option.bind_some, hzero, true_or, if_true]
        rfl

/-- The count may be larger than the number of entries that were written. -/
theorem readEntries_eq (tuples : List IndexTuple) (count room : Nat) (front : Bytes)
    (h : ∀ tuple ∈ tuples, Readable tuple) (hcount : tuples.length ≤ count) :
    readEntries (front ++ encodeEntries tuples ++ List.replicate room 0) count front.length =
      some (tuples.map unowned) := by
  induction tuples generalizing front count with
  | nil =>
      rw [encodeEntries, List.map_nil, List.flatten_nil, List.append_nil]
      exact readEntries_zeros count room front
  | cons tuple tuples ih =>
      obtain ⟨count, rfl⟩ : ∃ count', count = count' + 1 :=
        ⟨count - 1, by rw [List.length_cons] at hcount; omega⟩
      set after : Bytes := List.replicate room 0
      have hmeasurable := (h tuple List.mem_cons_self).measurable
      have hpos : 0 < tuple.key.length :=
        List.length_pos_of_ne_nil (h tuple List.mem_cons_self).nonempty
      have htail := ih count (front ++ encodeEntry tuple)
        (fun other hother => h other (List.mem_cons_of_mem _ hother))
        (by rw [List.length_cons] at hcount; omega)
      rw [List.length_append, encodeEntry_length] at htail
      have hcons : front ++ encodeEntries (tuple :: tuples) ++ after =
          front ++ encodeEntry tuple ++ encodeEntries tuples ++ after := by
        simp [encodeEntries]
      rw [hcons, readEntries]
      have hlen : front.length + (tuple.key.length + 10) ≤
          (front ++ encodeEntry tuple ++ encodeEntries tuples ++ after).length := by
        simp only [List.length_append, encodeEntry_length]
        omega
      have hkeyLen := slice_append front (toLeBytes 4 tuple.key.length)
        (tuple.key ++ toLeBytes 4 tuple.heapPointer.1.toNat ++
          toLeBytes 2 tuple.heapPointer.2.toNat ++ encodeEntries tuples ++ after)
        front.length (front.length + 4) rfl (by simp)
      have hkey := slice_append (front ++ toLeBytes 4 tuple.key.length) tuple.key
        (toLeBytes 4 tuple.heapPointer.1.toNat ++
          toLeBytes 2 tuple.heapPointer.2.toNat ++ encodeEntries tuples ++ after)
        (front.length + 4) (front.length + 4 + tuple.key.length) (by simp) (by simp)
      have hpage := slice_append (front ++ toLeBytes 4 tuple.key.length ++ tuple.key)
        (toLeBytes 4 tuple.heapPointer.1.toNat)
        (toLeBytes 2 tuple.heapPointer.2.toNat ++ encodeEntries tuples ++ after)
        (front.length + 4 + tuple.key.length) (front.length + 4 + tuple.key.length + 4)
        (by simp; omega) (by simp; omega)
      have hoffset := slice_append
        (front ++ toLeBytes 4 tuple.key.length ++ tuple.key ++
          toLeBytes 4 tuple.heapPointer.1.toNat)
        (toLeBytes 2 tuple.heapPointer.2.toNat) (encodeEntries tuples ++ after)
        (front.length + 4 + tuple.key.length + 4)
        (front.length + 4 + tuple.key.length + 4 + 2) (by simp; omega) (by simp; omega)
      rw [if_neg (by omega)]
      have hdata : front ++ encodeEntry tuple ++ encodeEntries tuples ++ after =
          front ++ (toLeBytes 4 tuple.key.length ++ (tuple.key ++
            (toLeBytes 4 tuple.heapPointer.1.toNat ++ (toLeBytes 2 tuple.heapPointer.2.toNat ++
              (encodeEntries tuples ++ after))))) := by
        simp [encodeEntry]
      rw [hdata] at htail hlen ⊢
      simp only [List.append_assoc] at hkeyLen hkey hpage hoffset
      have hcount : fromLeBytes (toLeBytes 4 tuple.key.length) = tuple.key.length :=
        fromLeBytes_toLeBytes _ _ hmeasurable
      have hnext : front.length + (tuple.key.length + 10) =
          front.length + 4 + tuple.key.length + 4 + 2 := by
        omega
      rw [hnext] at htail
      simp only [hkeyLen, hcount, Option.bind_eq_bind, Option.bind_some]
      rw [if_neg (by omega)]
      simp only [hkey, hpage, hoffset, Option.bind_some, htail, fromLeBytes_uint32,
        fromLeBytes_uint16]
      rfl

/-- The bytes before the siblings. -/
def encodeKind (page : BTreePage) : Bytes :=
  [pageTypeByte page.pageType] ++ toLeBytes 2 page.level.toNat ++ toLeBytes 2 page.keys.length

def encodeSiblings (page : BTreePage) : Bytes :=
  toLeBytes 4 (siblingValue page.leftSibling).toNat ++
    toLeBytes 4 (siblingValue page.rightSibling).toNat

/-- The first 64 bytes of a page. -/
def encodeHeader (page : BTreePage) : Bytes :=
  encodeKind page ++ List.replicate 3 0 ++ encodeSiblings page ++ List.replicate 48 0

theorem encodeHeader_length (page : BTreePage) : (encodeHeader page).length = 64 := by
  simp [encodeHeader, encodeKind, encodeSiblings]

theorem skip_zeros (written : Bytes) (skipped room : Nat) :
    written ++ List.replicate (skipped + room) 0 =
      (written ++ List.replicate skipped 0) ++ List.replicate room 0 := by
  rw [List.append_assoc, List.replicate_append_replicate]

theorem serializePage_eq (page : BTreePage) (room : Nat)
    (h : ∀ tuple ∈ page.keys, Measurable tuple) :
    serializePage page (64 + room) =
      some (encodeHeader page ++ encodeEntries (fitting room page.keys) ++
        List.replicate (room - (encodeEntries (fitting room page.keys)).length) 0) := by
  have hskip := skip_zeros (encodeKind page) 3 (56 + room)
  have hbody := skip_zeros (encodeKind page ++ List.replicate 3 0 ++ encodeSiblings page) 48 room
  have htype := copyFromSlice_zeros [] [pageTypeByte page.pageType] (64 + room) (by simp; omega)
  have hlevel := copyFromSlice_zeros [pageTypeByte page.pageType] (toLeBytes 2 page.level.toNat)
    (64 + room - 1) (by simp; omega)
  have hnum := copyFromSlice_zeros
    ([pageTypeByte page.pageType] ++ toLeBytes 2 page.level.toNat)
    (toLeBytes 2 page.keys.length) (64 + room - 1 - 2) (by simp; omega)
  have hleft := copyFromSlice_zeros (encodeKind page ++ List.replicate 3 0)
    (toLeBytes 4 (siblingValue page.leftSibling).toNat) (56 + room) (by simp; omega)
  have hright := copyFromSlice_zeros
    (encodeKind page ++ List.replicate 3 0 ++ toLeBytes 4 (siblingValue page.leftSibling).toNat)
    (toLeBytes 4 (siblingValue page.rightSibling).toNat) (56 + room - 4) (by simp; omega)
  have hentries := writeEntries_eq page.keys (64 + room) room (encodeHeader page) h
    (by rw [encodeHeader_length])
  have hnumbers : 64 + room - 1 - 2 - 2 = 3 + (56 + room) := by omega
  have hsiblings : 56 + room - 4 - 4 = 48 + room := by omega
  rw [encodeHeader_length] at hentries
  simp only [encodeKind, encodeSiblings, encodeHeader, List.nil_append, List.length_nil,
    List.length_append, toLeBytes_length, List.length_cons, List.length_replicate,
    Nat.reduceAdd, ← List.append_assoc] at htype hlevel hnum hleft hright hskip hbody hentries
  rw [serializePage, htype]
  simp only [Option.bind_eq_bind, Option.bind_some, hlevel, hnum, hnumbers, hskip, hleft, hright,
    hsiblings, hbody, hentries]
  simp only [encodeHeader, encodeKind, encodeSiblings, ← List.append_assoc]

/-- The page that comes back from where `page` was written. -/
def stored (pageId : PageId) (page : BTreePage) : BTreePage where
  pageType := pageTypeOfByte (pageTypeByte page.pageType)
  pageId := pageId
  level := page.level
  keys := page.keys.map unowned
  leftSibling := siblingOfValue (siblingValue page.leftSibling)
  rightSibling := siblingOfValue (siblingValue page.rightSibling)

/-- The page that comes back when only `tuples` of its entries were written. -/
theorem deserializePage_eq (pageId : PageId) (page : BTreePage) (tuples : List IndexTuple)
    (room : Nat) (h : ∀ tuple ∈ tuples, Readable tuple)
    (hcount : tuples.length ≤ page.keys.length) (hnumber : page.keys.length < 2 ^ 16) :
    deserializePage pageId
        (encodeHeader page ++ encodeEntries tuples ++ List.replicate room 0) =
      some { stored pageId page with keys := tuples.map unowned } := by
  have hnum : fromLeBytes (toLeBytes 2 page.keys.length) = page.keys.length :=
    fromLeBytes_toLeBytes _ _ hnumber
  have hentries := readEntries_eq tuples page.keys.length room (encodeHeader page) h hcount
  rw [encodeHeader_length] at hentries
  generalize List.replicate room (0 : UInt8) = after at hentries ⊢
  have hlen : ¬(encodeHeader page ++ encodeEntries tuples ++ after).length < 16 := by
    simp only [List.length_append, encodeHeader_length]
    omega
  rw [deserializePage, if_neg hlen]
  generalize encodeEntries tuples = entries at hentries ⊢
  have hkind : slice (encodeHeader page ++ entries ++ after) 1 3 =
        some (toLeBytes 2 page.level.toNat) ∧
      slice (encodeHeader page ++ entries ++ after) 3 5 =
        some (toLeBytes 2 page.keys.length) ∧
      slice (encodeHeader page ++ entries ++ after) 8 12 =
        some (toLeBytes 4 (siblingValue page.leftSibling).toNat) ∧
      slice (encodeHeader page ++ entries ++ after) 12 16 =
        some (toLeBytes 4 (siblingValue page.rightSibling).toNat) := by
    simp (disch := simp) only [encodeHeader, encodeKind, encodeSiblings, List.append_assoc,
      slice_append_right, slice_prefix, List.length_cons, List.length_nil, toLeBytes_length,
      List.length_replicate, Nat.reduceAdd, Nat.reduceSub, and_self]
  have htype : (encodeHeader page ++ entries ++ after)[0]? =
      some (pageTypeByte page.pageType) := rfl
  obtain ⟨hlevel, hkeys, hleft, hright⟩ := hkind
  simp only [htype, hlevel, hkeys, hleft, hright, hnum, hentries, Option.bind_eq_bind,
    Option.bind_some, fromLeBytes_uint16, fromLeBytes_uint32]
  rfl

section RoundTrip

/-- A page with a type the reader knows, siblings and keys that can be told from
the zeros of an unwritten place, and room for all its entries. -/
structure Encodable (page : BTreePage) (pageSize : Nat) : Prop where
  pageType : page.pageType ≠ .metaPage
  leftSibling : page.leftSibling ≠ some ⟨0⟩
  rightSibling : page.rightSibling ≠ some ⟨0⟩
  nonempty : ∀ tuple ∈ page.keys, tuple.key ≠ []
  number : page.keys.length < 65536
  fits : 64 + (page.keys.map fun tuple => 10 + tuple.key.length).sum ≤ pageSize

theorem siblingOfValue_siblingValue {sibling : Option PageId} (h : sibling ≠ some ⟨0⟩) :
    siblingOfValue (siblingValue sibling) = sibling := by
  cases sibling with
  | none => rfl
  | some page =>
      have hne : page.val ≠ 0 := by
        intro hzero
        exact h (congrArg some (congrArg PageId.mk hzero))
      exact if_neg hne

theorem pageTypeOfByte_pageTypeByte {pageType : BTreePageType} (h : pageType ≠ .metaPage) :
    pageTypeOfByte (pageTypeByte pageType) = pageType := by
  cases pageType with
  | metaPage => exact absurd rfl h
  | root => rfl
  | internal => rfl
  | leaf => rfl
  | overflow => rfl

variable {page : BTreePage} {pageSize : Nat}

theorem Encodable.fitting_eq (h : Encodable page pageSize) :
    fitting (pageSize - 64) page.keys = page.keys := by
  rw [fitting_eq_iff, encodeEntries_length]
  have hfits := h.fits
  simp only [Nat.add_comm 10] at hfits
  omega

/-- What was written is read back, apart from the heap oids. -/
theorem deserializePage_serializePage (h : Encodable page pageSize)
    (hlength : ∀ tuple ∈ page.keys, tuple.key.length < 2 ^ 32) (pageId : PageId) :
    ∃ data, serializePage page pageSize = some data ∧
      deserializePage pageId data =
        some { page with pageId := pageId, keys := page.keys.map unowned } := by
  obtain ⟨room, rfl⟩ := Nat.exists_eq_add_of_le (le_trans (Nat.le_add_right _ _) h.fits)
  have hfitting := h.fitting_eq
  rw [Nat.add_sub_cancel_left] at hfitting
  have hread := deserializePage_eq pageId page page.keys
    (room - (encodeEntries page.keys).length)
    (fun tuple htuple => ⟨h.nonempty tuple htuple, hlength tuple htuple⟩) le_rfl h.number
  refine ⟨_, serializePage_eq page room hlength, ?_⟩
  rw [hfitting, hread, stored, pageTypeOfByte_pageTypeByte h.pageType,
    siblingOfValue_siblingValue h.leftSibling, siblingOfValue_siblingValue h.rightSibling]

theorem deserializePage_serializePage_leaf :
    ∃ data,
      serializePage ⟨.leaf, ⟨5⟩, 3, [⟨[1, 2], (7, 8), ⟨9⟩⟩], some ⟨4⟩, none⟩ 76 = some data ∧
      deserializePage ⟨6⟩ data =
        some ⟨.leaf, ⟨6⟩, 3, [⟨[1, 2], (7, 8), ⟨0⟩⟩], some ⟨4⟩, none⟩ :=
  deserializePage_serializePage
    ⟨by decide, by decide, by decide, by decide, by decide, by decide⟩ (by decide) ⟨6⟩

/-- The length of a key is cut to four bytes, and a key that is longer than its
length says is not copied. -/
theorem writeEntries_longKey {tuple : IndexTuple} {data : Bytes} {pos : Nat}
    (hlong : 2 ^ 32 ≤ tuple.key.length) (hfits : pos + 10 + tuple.key.length ≤ pageSize)
    (tuples : List IndexTuple) : writeEntries pageSize (tuple :: tuples) data pos = none := by
  have hcut : tuple.key.length % 2 ^ 32 < tuple.key.length :=
    lt_of_lt_of_le (Nat.mod_lt _ (by decide)) hlong
  rw [writeEntries, if_neg (by omega)]
  cases copyFromSlice data pos (toLeBytes 4 (tuple.key.length % 2 ^ 32)) with
  | none => rfl
  | some data =>
      simp only [Option.bind_eq_bind, Option.bind_some]
      rw [if_neg (Nat.ne_of_gt hcut), Option.bind_none]

theorem serializePage_longKey {tuple : IndexTuple} {tuples : List IndexTuple}
    (hkeys : page.keys = tuple :: tuples) (hlong : 2 ^ 32 ≤ tuple.key.length)
    (hfits : 74 + tuple.key.length ≤ pageSize) : serializePage page pageSize = none := by
  unfold serializePage
  simp only [Option.bind_eq_bind, Option.bind_eq_none_iff]
  intro data₁ _ data₂ _ data₃ _ data₄ _ data₅ _
  rw [hkeys]
  exact writeEntries_longKey hlong hfits tuples

/-- A leaf with one entry. -/
def oneEntry (key : Bytes) : BTreePage :=
  { BTreePage.new .leaf ⟨1⟩ with keys := [⟨key, (7, 0), ⟨0⟩⟩] }

theorem oneEntry_encodable {key : Bytes} (hnonempty : key ≠ []) :
    Encodable (oneEntry key) (74 + key.length) where
  pageType := by simp [oneEntry, BTreePage.new]
  leftSibling := by simp [oneEntry, BTreePage.new]
  rightSibling := by simp [oneEntry, BTreePage.new]
  nonempty := by simpa [oneEntry] using hnonempty
  number := by simp [oneEntry]
  fits := by
    simp only [oneEntry, List.map_cons, List.map_nil, List.sum_cons, List.sum_nil]
    omega

theorem serializePage_oneEntry {key : Bytes} (hlong : 2 ^ 32 ≤ key.length) :
    Encodable (oneEntry key) (74 + key.length) ∧
      serializePage (oneEntry key) (74 + key.length) = none := by
  have hnonempty : key ≠ [] := by
    rintro rfl
    exact absurd hlong (by decide)
  exact ⟨oneEntry_encodable hnonempty, serializePage_longKey rfl hlong le_rfl⟩

/-- A key of four gibibytes is not written. -/
theorem fourGibibyte_key_panics :
    ∃ key : Bytes, key = List.replicate (2 ^ 32) 1 ∧
      Encodable (oneEntry key) (74 + key.length) ∧
      serializePage (oneEntry key) (74 + key.length) = none := by
  refine ⟨_, rfl, serializePage_oneEntry ?_⟩
  rw [List.length_replicate]

end RoundTrip

section Pages

variable {σ : Type} [StorageTrait σ]

/-- The bytes of a page: its type, the rest of the header, the entries and
zeros.  An unwritten page has the type byte of a meta page. -/
def Laid (data : Bytes) (page : BTreePage) : Prop :=
  ∃ byte header room,
    data = byte :: header ++ encodeEntries page.keys ++ List.replicate room 0 ∧
    header.length = 63 ∧
    (byte = pageTypeByte page.pageType ∨ byte = 0 ∧ page.pageType = .leaf ∧ page.keys = [])

/-- Page `pageId` of the store reads as `page`. -/
def PageAt (storage : σ) (pageId : PageId) (page : BTreePage) : Prop :=
  ∃ data, readPage storage pageId = .ok data ∧ deserializePage pageId data = some page ∧
    Laid data page

theorem fetchPage_ok {s : IndexStore σ} {pageId : PageId} {page : BTreePage}
    (h : PageAt s.storage pageId page) : fetchPage pageId s = .ok page s := by
  obtain ⟨data, hread, hpage, -⟩ := h
  unfold fetchPage
  rw [bind_ok (read_apply _ s), hread, bind_ok (ofExcept_ok data s), hpage, orPanic_some]

/-- An unwritten page is an empty leaf. -/
theorem pageAt_zero {storage : σ} {pageId : PageId}
    (h : readPage storage pageId = .ok zeroPage) :
    PageAt storage pageId (BTreePage.new .leaf pageId) := by
  refine ⟨zeroPage, h, ?_, 0, List.replicate 63 0, 8128, ?_, List.length_replicate,
    Or.inr ⟨rfl, rfl, rfl⟩⟩
  rotate_left
  · rw [BTreePage.new, encodeEntries, List.map_nil, List.flatten_nil, List.append_nil,
      ← List.replicate_succ, List.replicate_append_replicate]
    rfl
  have hzero : zeroPage =
      encodeHeader (BTreePage.new .metaPage pageId) ++ encodeEntries [] ++
        List.replicate 8128 0 := by
    have hheader : encodeHeader (BTreePage.new .metaPage pageId) = List.replicate 64 0 := by
      simp [encodeHeader, encodeKind, encodeSiblings, BTreePage.new, pageTypeByte, siblingValue,
        toLeBytes]
    rw [hheader, zeroPage, encodeEntries, List.map_nil, List.flatten_nil, List.append_nil,
      List.replicate_append_replicate]
  rw [hzero]
  exact deserializePage_eq pageId (BTreePage.new .metaPage pageId) [] 8128 (by simp) (by simp)
    (by simp [BTreePage.new])

theorem storeData_ok [LawfulStorage σ] (s : IndexStore σ) (pageId : PageId) (data : Bytes) :
    storeData pageId data s = .ok () { s with storage := (writePage s.storage pageId data).2 } := by
  have hok := LawfulStorage.write_ok s.storage pageId data
  unfold storeData
  generalize writePage s.storage pageId data = written at hok ⊢
  obtain ⟨result, storage⟩ := written
  cases hok
  rfl

theorem encodeEntries_map_unowned (tuples : List IndexTuple) :
    encodeEntries (tuples.map unowned) = encodeEntries tuples := by
  rw [encodeEntries, List.map_map]
  rfl

/-- A page is stored with the entries that fit. -/
theorem storePage_fitting [LawfulStorage σ] {s : IndexStore σ} (pageId : PageId)
    {page : BTreePage} (room : Nat) (h : ∀ tuple ∈ page.keys, Readable tuple)
    (hnumber : page.keys.length < 2 ^ 16) (htype : page.pageType ≠ .metaPage) :
    ∃ storage, storePage pageId page (64 + room) s = .ok () { s with storage := storage } ∧
      PageAt storage pageId
        { stored pageId page with keys := (fitting room page.keys).map unowned } ∧
      ∀ other otherPage, other ≠ pageId → PageAt s.storage other otherPage →
        PageAt storage other otherPage := by
  have hsublist := fitting_sublist room page.keys
  unfold storePage
  rw [serializePage_eq page room fun tuple htuple => (h tuple htuple).measurable,
    bind_ok (orPanic_some _ s), storeData_ok]
  refine ⟨_, rfl, ⟨_, LawfulStorage.read_write_self s.storage pageId _, ?_, ?_⟩, ?_⟩
  · exact deserializePage_eq pageId page _ _ (fun tuple htuple => h tuple (hsublist.subset htuple))
      hsublist.length_le hnumber
  · refine ⟨pageTypeByte page.pageType, (encodeHeader page).tail,
      room - (encodeEntries (fitting room page.keys)).length, ?_, ?_, Or.inl ?_⟩
    · rw [encodeEntries_map_unowned]
      rfl
    · rw [List.length_tail, encodeHeader_length]
    · exact congrArg pageTypeByte (pageTypeOfByte_pageTypeByte htype).symm
  · rintro other otherPage hne ⟨otherData, hread, hpage⟩
    refine ⟨otherData, ?_, hpage⟩
    rw [LawfulStorage.read_write_of_ne s.storage pageId other _ hne]
    exact hread

theorem storePage_ok [LawfulStorage σ] {s : IndexStore σ} (pageId : PageId) {page : BTreePage}
    (h : ∀ tuple ∈ page.keys, Indexable tuple) (hcount : page.keys.length ≤ 128)
    (htype : page.pageType ≠ .metaPage) :
    ∃ storage, storePage pageId page 8192 s = .ok () { s with storage := storage } ∧
      PageAt storage pageId (stored pageId page) ∧
      ∀ other otherPage, other ≠ pageId → PageAt s.storage other otherPage →
        PageAt storage other otherPage := by
  have hfits : fitting 8128 page.keys = page.keys := by
    rw [fitting_eq_iff]
    have hlen := encodeEntries_length_le h
    omega
  have hstore := storePage_fitting (s := s) pageId 8128
    (fun tuple htuple => (h tuple htuple).readable) (by omega) htype
  rwa [hfits] at hstore

end Pages

end PostgressRs.Btree.PageCodec
