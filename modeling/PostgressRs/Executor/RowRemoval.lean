import PostgressRs.Executor.VersionChanges

/-!
What a table shows after `tuple_delete`: the rows it showed before that do not match the
filter, under the same item pointers and in the same order.
-/

namespace PostgressRs.Executor.RowRemoval

open PostgressRs.BufferCache.SharedCache
open PostgressRs.Executor.HeapAccess
open PostgressRs.Executor.HeapContents
open PostgressRs.Executor.HeapInvariant
open PostgressRs.Executor.HeapSteps
open PostgressRs.Executor.InsertComplete
open PostgressRs.Executor.VacuumEffects
open PostgressRs.Executor.VersionChanges
open PostgressRs.Lib.ByteBuffer
open PostgressRs.Lib.Procedure
open PostgressRs.Lib.Utf8
open PostgressRs.Storage.PageContents
open PostgressRs.Storage.PageRoundTrip
open PostgressRs.Storage.PageStore
open PostgressRs.Storage.SlottedPage
open PostgressRs.Types
open PostgressRs.Wal.LogRecord
open PostgressRs.Wal.WriteAheadLog

section Decoding

/-- Documented behaviour of the default configuration: a tuple is decoded from its
encoding, and what follows is not looked at. -/
class LawfulBincodeReads [Bincode] : Prop where
  serialize_decoded {bytes : Bytes} {tuple : Tuple} : deserializeTuple bytes = .ok tuple →
    ∃ encoded rest, serializeTuple tuple = .ok encoded ∧ bytes = encoded ++ rest

theorem takeBytes_eq_some {count : Nat} {bytes window rest : Bytes}
    (h : takeBytes count bytes = some (window, rest)) :
    bytes = window ++ rest ∧ window.length = count := by
  unfold takeBytes at h
  split at h
  · rename_i hle
    cases h
    exact ⟨(List.take_append_drop _ _).symm, List.length_take_of_le hle⟩
  · cases h

theorem readInt_eq_some {width n : Nat} {bytes rest : Bytes}
    (h : readInt width bytes = some (n, rest)) :
    bytes = toLeBytes width n ++ rest ∧ n < 256 ^ width := by
  obtain ⟨⟨digits, rest'⟩, htake, heq⟩ := Option.bind_eq_some_iff.mp h
  cases heq
  obtain ⟨rfl, rfl⟩ := takeBytes_eq_some htake
  rw [toLeBytes_fromLeBytes]
  exact ⟨rfl, fromLeBytes_lt digits⟩

theorem readSlots_eq_some {count : Nat} {slots : List SlotId} {bytes rest : Bytes}
    (h : readSlots count bytes = some (slots, rest)) :
    bytes = slots.flatMap (fun slot => toLeBytes 2 slot.val.toNat) ++ rest ∧
      slots.length = count := by
  induction count generalizing bytes slots with
  | zero =>
      cases h
      exact ⟨rfl, rfl⟩
  | succ count ih =>
      obtain ⟨⟨slot, bytes₁⟩, hslot, h⟩ := Option.bind_eq_some_iff.mp h
      obtain ⟨⟨slots₁, bytes₂⟩, hslots, h⟩ := Option.bind_eq_some_iff.mp h
      cases h
      obtain ⟨rfl, hlt⟩ := readInt_eq_some hslot
      obtain ⟨rfl, rfl⟩ := ih hslots
      have hval : (UInt16.ofNat slot).toNat = slot := by
        rw [UInt16.toNat_ofNat']
        exact Nat.mod_eq_of_lt hlt
      refine ⟨?_, rfl⟩
      simp only [List.flatMap_cons, hval, List.append_assoc]

theorem decodeTuple_eq_some {bytes : Bytes} {tuple : Tuple} (h : decodeTuple bytes = some tuple) :
    Encodable tuple ∧ ∃ rest, bytes = encodeTuple tuple ++ rest := by
  obtain ⟨⟨slotCount, bytes₁⟩, hslotCount, h⟩ := Option.bind_eq_some_iff.mp h
  obtain ⟨⟨slots, bytes₂⟩, hslots, h⟩ := Option.bind_eq_some_iff.mp h
  obtain ⟨⟨dataLen, bytes₃⟩, hdataLen, h⟩ := Option.bind_eq_some_iff.mp h
  obtain ⟨⟨data, bytes₄⟩, hdata, h⟩ := Option.bind_eq_some_iff.mp h
  obtain ⟨⟨xmin, bytes₅⟩, hxmin, h⟩ := Option.bind_eq_some_iff.mp h
  obtain ⟨⟨xmax, bytes₆⟩, hxmax, h⟩ := Option.bind_eq_some_iff.mp h
  obtain ⟨⟨cmin, bytes₇⟩, hcmin, h⟩ := Option.bind_eq_some_iff.mp h
  obtain ⟨⟨cmax, bytes₈⟩, hcmax, h⟩ := Option.bind_eq_some_iff.mp h
  obtain ⟨⟨xvac, rest⟩, hxvac, h⟩ := Option.bind_eq_some_iff.mp h
  cases h
  obtain ⟨rfl, hslotLt⟩ := readInt_eq_some hslotCount
  obtain ⟨rfl, rfl⟩ := readSlots_eq_some hslots
  obtain ⟨rfl, hdataLt⟩ := readInt_eq_some hdataLen
  obtain ⟨rfl, rfl⟩ := takeBytes_eq_some hdata
  obtain ⟨rfl, hxminLt⟩ := readInt_eq_some hxmin
  obtain ⟨rfl, hxmaxLt⟩ := readInt_eq_some hxmax
  obtain ⟨rfl, hcminLt⟩ := readInt_eq_some hcmin
  obtain ⟨rfl, hcmaxLt⟩ := readInt_eq_some hcmax
  obtain ⟨rfl, hxvacLt⟩ := readInt_eq_some hxvac
  refine ⟨⟨hslotLt, hdataLt⟩, rest, ?_⟩
  simp only [encodeTuple, UInt64.toNat_ofNat_of_lt' hxminLt, UInt64.toNat_ofNat_of_lt' hxmaxLt,
    UInt32.toNat_ofNat_of_lt' hcminLt, UInt32.toNat_ofNat_of_lt' hcmaxLt,
    UInt64.toNat_ofNat_of_lt' hxvacLt, List.append_assoc]

instance lawfulReads : LawfulBincodeReads where
  serialize_decoded := by
    intro bytes tuple h
    simp only [deserializeTuple] at h
    split at h
    · rename_i tuple' hdecoded
      cases h
      obtain ⟨hencodable, rest, hbytes⟩ := decodeTuple_eq_some hdecoded
      exact ⟨encodeTuple tuple, rest, serializeTuple_ok hencodable, hbytes⟩
    · cases h

end Decoding

section Matching

/-- The row has the column of the filter, with the filter's value. -/
def Matches (filter : Option Filter) (row : List String) : Prop :=
  ∀ f, filter = some f → ∃ h : f.column < row.length, row[f.column] = fromUtf8Lossy f.value

theorem writeFilter_iff (filter : Option Filter) (row : List String) :
    writeFilter row filter = true ↔ Matches filter row := by
  cases filter with
  | none => exact iff_of_true rfl nofun
  | some f =>
      simp only [writeFilter, Matches, decide_eq_true_eq, List.getElem?_eq_some_iff]
      constructor
      · intro hmatch f' hf
        cases hf
        exact hmatch
      · intro hmatch
        exact hmatch f rfl

instance (filter : Option Filter) (row : List String) : Decidable (Matches filter row) :=
  decidable_of_iff _ (writeFilter_iff filter row)

end Matching

section Rows

variable [Bincode] [LawfulBincode]

/-- A deletion with this xid is visible to a scan without a snapshot. -/
def Deletes (xid : UInt64) : Prop := 0 < xid.toNat ∧ xid.toNat < 2 ^ 32 - 1

/-- The slots of the versions in `work` hold them with a deleter from `W`, the others what
they held. -/
structure Stamped (W : UInt64 → Prop) (work : List (Nat × Tuple)) (tuples tuples' : List Bytes) :
    Prop where
  length_eq : tuples'.length = tuples.length
  others : ∀ i, i ∉ work.map Prod.fst → tuples'[i]? = tuples[i]?
  stamped : ∀ entry ∈ work, ∃ xid encoded, W xid ∧
    serializeTuple { entry.2 with xmax := xid } = .ok encoded ∧ tuples'[entry.1]? = some encoded

variable {page : HeapPage} {desc : TupleDesc} {filter : Option Filter}

omit [LawfulBincode] in
theorem mem_matchingTuples {i : Nat} {tup : Tuple} :
    (i, tup) ∈ matchingTuples page desc filter ↔
      ∃ bytes, page.tuples[i]? = some bytes ∧ deserializeTuple bytes = .ok tup ∧
        writeFilter (decodeTupleValues tup desc) filter = true := by
  unfold matchingTuples
  rw [List.mem_filterMap]
  constructor
  · rintro ⟨⟨bytes, slot⟩, hmem, hentry⟩
    simp only at hentry
    split at hentry
    · rename_i tup' hdecoded
      split at hentry
      · rename_i hmatch
        cases hentry
        exact ⟨bytes, List.mem_zipIdx_iff_getElem?.mp hmem, hdecoded, hmatch⟩
      · cases hentry
    · cases hentry
  · rintro ⟨bytes, hbytes, hdecoded, hmatch⟩
    refine ⟨(bytes, i), List.mem_zipIdx_iff_getElem?.mpr hbytes, ?_⟩
    simp only [hdecoded, hmatch, if_true]

omit [LawfulBincode] in
theorem not_mem_matchingTuples {i : Nat} {bytes : Bytes} (hbytes : page.tuples[i]? = some bytes)
    (h : ∀ tup, deserializeTuple bytes = .ok tup →
      ¬writeFilter (decodeTupleValues tup desc) filter = true) :
    i ∉ (matchingTuples page desc filter).map Prod.fst := by
  intro hmem
  obtain ⟨⟨i', tup⟩, hentry, rfl⟩ := List.mem_map.mp hmem
  obtain ⟨bytes', hbytes', hdecoded, hmatch⟩ := mem_matchingTuples.mp hentry
  rw [hbytes] at hbytes'
  cases hbytes'
  exact h tup hdecoded hmatch

omit [Bincode] [LawfulBincode] in
theorem not_isVisible_of_deletes {tup : Tuple} {xid : UInt64} (h : Deletes xid) :
    isVisible { tup with xmax := xid } maxSnapshot = false := by
  have hne : xid ≠ 0 := by
    rintro rfl
    exact absurd h.1 (Nat.lt_irrefl 0)
  have hlt : xid.toUInt32 < 0xFFFFFFFF := by
    rw [UInt32.lt_iff_toNat_lt, UInt64.toNat_toUInt32]
    exact Nat.lt_of_le_of_lt (Nat.mod_le _ _) h.2
  simp [isVisible, maxSnapshot, hne, hlt]

theorem slotRow_of_deletes {p : PageId} {slot : Nat} {tup : Tuple} {xid : UInt64}
    {encoded : Bytes} (h : Deletes xid)
    (hencoded : serializeTuple { tup with xmax := xid } = .ok encoded) :
    slotRow p desc maxSnapshot none slot encoded = none := by
  simp only [slotRow, LawfulBincode.deserialize_serialize hencoded, not_isVisible_of_deletes h,
    Bool.false_eq_true, if_false]

omit [Bincode] [LawfulBincode] in
theorem filterMap_zipIdx_congr {α β : Type} {l l' : List α} {f g : α × Nat → Option β}
    (hlength : l'.length = l.length)
    (h : ∀ i a a', l[i]? = some a → l'[i]? = some a' → f (a', i) = g (a, i)) :
    l'.zipIdx.filterMap f = l.zipIdx.filterMap g := by
  have hmap : l'.zipIdx.map f = l.zipIdx.map g := by
    apply List.ext_getElem?
    intro i
    rw [List.getElem?_map, List.getElem?_map, List.getElem?_zipIdx, List.getElem?_zipIdx]
    cases ha : l[i]? with
    | none =>
        have hle := List.getElem?_eq_none_iff.mp ha
        rw [List.getElem?_eq_none_iff.mpr (hlength.trans_le hle)]
        rfl
    | some a =>
        have hlt : i < l'.length := by
          rw [hlength]
          exact (List.getElem?_eq_some_iff.mp ha).1
        have ha' := List.getElem?_eq_getElem hlt
        rw [ha', Option.map_some, Option.map_some, Nat.zero_add]
        exact congrArg some (h i a _ ha ha')
  calc
    l'.zipIdx.filterMap f = (l'.zipIdx.map f).filterMap id := by
      rw [List.filterMap_map]
      rfl
    _ = (l.zipIdx.map g).filterMap id := by rw [hmap]
    _ = l.zipIdx.filterMap g := by
      rw [List.filterMap_map]
      rfl

/-- A page shows the rows that did not match, after the versions that did were stamped. -/
theorem pageRows_stamped {tuples' : List Bytes} (p : PageId)
    (h : Stamped Deletes (matchingTuples page desc filter) page.tuples tuples') :
    pageRows p tuples' desc maxSnapshot none =
      (pageRows p page.tuples desc maxSnapshot none).filter
        fun row => ¬Matches filter row.2 := by
  unfold pageRows
  rw [List.filter_filterMap]
  apply filterMap_zipIdx_congr h.length_eq
  intro i bytes bytes' hbytes hbytes'
  simp only
  cases hdecoded : deserializeTuple bytes with
  | error e =>
      have hnot := @not_mem_matchingTuples _ page desc filter _ _ hbytes (by rw [hdecoded]; nofun)
      rw [h.others i hnot, hbytes] at hbytes'
      cases hbytes'
      simp [slotRow, hdecoded]
  | ok tup =>
      by_cases hmatch : writeFilter (decodeTupleValues tup desc) filter = true
      · have hentry : (i, tup) ∈ matchingTuples page desc filter :=
          mem_matchingTuples.mpr ⟨bytes, hbytes, hdecoded, hmatch⟩
        obtain ⟨xid, encoded, hdeletes, hencoded, hget⟩ := h.stamped _ hentry
        rw [hget] at hbytes'
        cases hbytes'
        rw [slotRow_of_deletes hdeletes hencoded]
        have hmatches := (writeFilter_iff _ _).mp hmatch
        unfold slotRow
        simp only [hdecoded, scanFilter, if_true]
        split
        · simp [Option.filter, hmatches]
        · rfl
      · have hnot := @not_mem_matchingTuples _ page desc filter _ _ hbytes (by
          rw [hdecoded]
          intro tup' htup'
          cases htup'
          exact hmatch)
        rw [h.others i hnot, hbytes] at hbytes'
        cases hbytes'
        have hmatches : ¬Matches filter (decodeTupleValues tup desc) :=
          fun hmatches => hmatch ((writeFilter_iff _ _).mpr hmatches)
        unfold slotRow
        simp only [hdecoded, scanFilter, if_true]
        split
        · simp [Option.filter, hmatches]
        · rfl

end Rows

section Shrinking

variable {lps : List LinePointer} {tuples : List Bytes}

theorem totalLen_set_tuple_le {i : Nat} {old tuple : Bytes} (hold : tuples[i]? = some old)
    (hlength : tuple.length ≤ old.length) :
    HeapPage.totalLen lps (tuples.set i tuple) ≤ HeapPage.totalLen lps tuples := by
  induction lps generalizing tuples i with
  | nil => simp [HeapPage.totalLen]
  | cons lp lps ih =>
      cases tuples with
      | nil => cases hold
      | cons tuple' tuples =>
          cases i with
          | zero =>
              cases hold
              simp only [List.set_cons_zero, HeapPage.totalLen]
              split
              · omega
              · omega
          | succ i =>
              have htail := @ih tuples i (by simpa using hold)
              simp only [List.set_cons_succ, HeapPage.totalLen]
              omega

theorem length_le_totalLen {i : Nat} {lp : LinePointer} {tuple : Bytes} (hlp : lps[i]? = some lp)
    (hnormal : lp.lpFlags = lpNormal) (htuple : tuples[i]? = some tuple) :
    tuple.length ≤ HeapPage.totalLen lps tuples := by
  induction lps generalizing tuples i with
  | nil => cases hlp
  | cons lp' lps ih =>
      cases tuples with
      | nil => cases htuple
      | cons tuple' tuples =>
          cases i with
          | zero =>
              cases hlp
              cases htuple
              simp only [HeapPage.totalLen, hnormal, if_true]
              omega
          | succ i =>
              have htail := @ih tuples i (by simpa using hlp) (by simpa using htuple)
              simp only [HeapPage.totalLen]
              omega

theorem WellFormed.tuple_length_le {page : HeapPage} (hpage : WellFormed page) {slot : Nat}
    {lp : LinePointer} {tuple : Bytes} (hlp : page.linePointers[slot]? = some lp)
    (hnormal : lp.lpFlags = lpNormal) (htuple : page.tuples[slot]? = some tuple) :
    tuple.length ≤ pageSize - pageHeaderSize := by
  have hlength := length_le_totalLen hlp hnormal htuple
  have hlower := hpage.lower_eq
  have hroom := hpage.lower_le_upper
  have hupper := hpage.upper_le
  omega

theorem wellFormed_shrinkTuple {page : HeapPage} {slot : Nat} {old tuple : Bytes}
    (hpage : WellFormed page) (hold : page.tuples[slot]? = some old) (hne : tuple ≠ [])
    (hlength : tuple.length ≤ old.length) : WellFormed (page.setTuple slot tuple) := by
  have htotal := @totalLen_set_tuple_le page.linePointers _ _ _ _ hold hlength
  have hupper := hpage.upper_le
  refine ⟨?_, normalAll_set_tuple hpage.nonempty fun _ _ _ => hne, hpage.lower_eq,
    hpage.special_eq, hpage.lower_le_upper, ?_⟩
  · simpa [HeapPage.setTuple] using hpage.length_eq
  · simp only [HeapPage.setTuple]
    omega

theorem restored_set {i : Nat} {lp : LinePointer} {tuple : Bytes} (hlp : lps[i]? = some lp)
    (hnormal : lp.lpFlags = lpNormal) :
    restored lps (tuples.set i tuple) = (restored lps tuples).set i tuple := by
  induction lps generalizing tuples i with
  | nil => cases hlp
  | cons lp' lps ih =>
      cases tuples with
      | nil => simp [restored]
      | cons tuple' tuples =>
          cases i with
          | zero =>
              cases hlp
              simp [restored, hnormal]
          | succ i =>
              have htail := @ih tuples i (by simpa using hlp)
              simp [restored, htail]

end Shrinking

section Steps

variable [Bincode] {σ : Type} [StorageTrait σ]

/-- The page in memory has the tuples of the stored page `p`. -/
structure Loaded (storage : σ) (p : PageId) (page : HeapPage) : Prop where
  wellFormed : WellFormed page
  restored_eq : restored page.linePointers page.tuples = page.tuples
  pageAt : ∃ page₀, PageAt storage p page₀ ∧ page₀.tuples = page.tuples

/-- The tuple was decoded from the bytes of its slot. -/
def Found (page : HeapPage) (entry : Nat × Tuple) : Prop :=
  ∃ bytes, page.tuples[entry.1]? = some bytes ∧ deserializeTuple bytes = .ok entry.2

/-- Nothing but page `p` was written. -/
structure Elsewhere (p : PageId) (db db' : Database σ) : Prop where
  rels_eq : db'.cache.rels = db.cache.rels
  untouched : ∀ q, q ≠ p → readPage db'.cache.disk.storage q = readPage db.cache.disk.storage q

variable {db db' : Database σ} {p : PageId} {page page' : HeapPage} {slot : Nat} {tup : Tuple}

omit [Bincode] in
theorem loaded_of_held (h : Held db.cache.disk.storage p page) :
    Loaded db.cache.disk.storage p (stored page) :=
  ⟨wellFormed_stored h.wellFormed, restored_relocate _ _ _, stored page, h.pageAt, rfl⟩

variable [LawfulBincode] [LawfulBincodeReads]

omit [StorageTrait σ] in
/-- A slot that a tuple was decoded from is normal, and has room for its stamped encoding. -/
theorem Found.setTuple (hfound : Found page (slot, tup)) (hpage : WellFormed page)
    (hrestored : restored page.linePointers page.tuples = page.tuples) (xid : UInt64) :
    ∃ encoded lp, serializeTuple { tup with xmax := xid } = .ok encoded ∧
      page.linePointers[slot]? = some lp ∧ lp.lpFlags = lpNormal ∧
      WellFormed (page.setTuple slot encoded) ∧ encoded.length ≤ pageSize - pageHeaderSize := by
  obtain ⟨bytes, hbytes, hdecoded⟩ := hfound
  obtain ⟨encoded₀, rest, hencoded₀, rfl⟩ := LawfulBincodeReads.serialize_decoded hdecoded
  obtain ⟨encoded, hencoded, hlength⟩ :=
    LawfulBincode.serialize_stamped tup.xmin xid hencoded₀
  have hne : encoded₀ ++ rest ≠ [] := by
    intro hnil
    exact serializeTuple_ne_nil hencoded₀ (List.append_eq_nil_iff.mp hnil).1
  rw [← hrestored] at hbytes
  obtain ⟨lp, hlp, hnormal, hold⟩ := normal_of_restored hbytes hne
  have hle : encoded.length ≤ (encoded₀ ++ rest).length := by
    rw [List.length_append]
    omega
  have htuple := WellFormed.tuple_length_le hpage hlp hnormal hold
  exact ⟨encoded, lp, hencoded, hlp, hnormal,
    wellFormed_shrinkTuple hpage hold (serializeTuple_ne_nil hencoded) hle, hle.trans htuple⟩

omit [LawfulBincode] [LawfulBincodeReads] in
theorem Found.of_ne {encoded : Bytes} {entry : Nat × Tuple} (hfound : Found page entry)
    (hne : slot ≠ entry.1) : Found (page.setTuple slot encoded) entry := by
  obtain ⟨bytes, hbytes, hdecoded⟩ := hfound
  exact ⟨bytes, (List.getElem?_set_ne hne).trans hbytes, hdecoded⟩

variable [LawfulStorage σ]

theorem deleteTuple_loaded {relOid : Oid} (hpage : Loaded db.cache.disk.storage p page)
    (hfound : Found page (slot, tup))
    (h : deleteTuple relOid p page slot tup db = .ok page' db') :
    Loaded db'.cache.disk.storage p page' ∧ Elsewhere p db db' ∧
      db'.wal.currentXid = db.wal.currentXid + 1 ∧
      ∃ encoded, serializeTuple { tup with xmax := db.wal.currentXid } = .ok encoded ∧
        page' = page.setTuple slot encoded := by
  obtain ⟨encoded, data, hencoded, rfl, hdata, hcache, hxid⟩ := deleteTuple_eq_ok h
  obtain ⟨encoded', lp, hencoded', hlp, hnormal, hwf, -⟩ :=
    hfound.setTuple hpage.wellFormed hpage.restored_eq db.wal.currentXid
  rw [hencoded] at hencoded'
  cases hencoded'
  obtain rfl := serialize_image hwf hdata
  have hrestored : restored page.linePointers (page.tuples.set slot encoded) =
      page.tuples.set slot encoded := by
    rw [restored_set hlp hnormal, hpage.restored_eq]
  rw [hcache]
  refine ⟨⟨hwf, hrestored, ?_⟩, ⟨?_, ?_⟩, hxid, encoded, hencoded, rfl⟩
  · exact ⟨_, (held_write _ _ hwf).pageAt, hrestored⟩
  · rw [hcache]
    rfl
  · intro q hq
    rw [hcache]
    exact LawfulStorage.read_write_of_ne _ _ _ _ hq

/-- A page's loop leaves the versions it was given with a deleter, and all else. -/
theorem deleteTuples_stamped {relOid : Oid} {W : UInt64 → Prop} {work : List (Nat × Tuple)}
    (hpage : Loaded db.cache.disk.storage p page) (hwork : ∀ entry ∈ work, Found page entry)
    (hnodup : (work.map Prod.fst).Nodup)
    (hxids : ∀ j < work.length, W (db.wal.currentXid + UInt64.ofNat j))
    (h : deleteTuples relOid p work page db = .ok () db') :
    (∃ page', PageAt db'.cache.disk.storage p page' ∧ Stamped W work page.tuples page'.tuples) ∧
      Elsewhere p db db' ∧
      db'.wal.currentXid = db.wal.currentXid + UInt64.ofNat work.length := by
  induction work generalizing page db with
  | nil =>
      cases h
      obtain ⟨page₀, hat, htuples⟩ := hpage.pageAt
      refine ⟨⟨page₀, hat, ?_⟩, ⟨rfl, fun _ _ => rfl⟩, (UInt64.add_zero _).symm⟩
      rw [htuples]
      exact ⟨rfl, fun _ _ => rfl, nofun⟩
  | cons entry work ih =>
      obtain ⟨hnot, hnodup⟩ := List.nodup_cons.mp hnodup
      obtain ⟨page₁, db₁, hfirst, hrest⟩ := bind_eq_ok.mp h
      obtain ⟨hpage₁, helse, hxid, encoded, hencoded, rfl⟩ :=
        deleteTuple_loaded hpage (hwork entry List.mem_cons_self) hfirst
      have hne : ∀ other ∈ work, entry.1 ≠ other.1 := by
        intro other hother heq
        exact hnot (List.mem_map.mpr ⟨other, hother, heq.symm⟩)
      have hlt : entry.1 < page.tuples.length := by
        obtain ⟨bytes, hbytes, -⟩ := hwork entry List.mem_cons_self
        exact (List.getElem?_eq_some_iff.mp hbytes).1
      have hfirstXid : W db.wal.currentXid := by
        simpa using hxids 0 (Nat.succ_pos _)
      have hrestXids : ∀ j < work.length, W (db₁.wal.currentXid + UInt64.ofNat j) := by
        intro j hj
        have hnext := hxids (1 + j) (by rw [List.length_cons]; omega)
        rw [UInt64.ofNat_add, ← UInt64.add_assoc] at hnext
        rw [hxid]
        exact hnext
      obtain ⟨⟨page', hat, hstamped⟩, helse', hxid'⟩ := ih hpage₁
        (fun other hother => (hwork other (List.mem_cons_of_mem _ hother)).of_ne (hne other hother))
        hnodup hrestXids hrest
      refine ⟨⟨page', hat, ?_, ?_, ?_⟩, ⟨?_, ?_⟩, ?_⟩
      · rw [hstamped.length_eq, HeapPage.setTuple, List.length_set]
      · intro i hi
        rw [List.map_cons, List.mem_cons, not_or] at hi
        rw [hstamped.others i hi.2, HeapPage.setTuple, List.getElem?_set_ne (Ne.symm hi.1)]
      · intro other hother
        rcases List.mem_cons.mp hother with rfl | hother
        · refine ⟨_, encoded, hfirstXid, hencoded, ?_⟩
          rw [hstamped.others _ hnot, HeapPage.setTuple, List.getElem?_set_self hlt]
        · exact hstamped.stamped other hother
      · exact helse'.rels_eq.trans helse.rels_eq
      · exact fun q hq => (helse'.untouched q hq).trans (helse.untouched q hq)
      · rw [hxid', hxid, UInt64.add_assoc, List.length_cons, Nat.add_comm, UInt64.ofNat_add]
        rfl

variable [LawfulBincodeChanges]

theorem deleteTuple_completes (relOid : Oid) {count : Nat}
    (hpage : Loaded db.cache.disk.storage p page) (hfound : Found page (slot, tup))
    (hwal : Ready db.wal (count + 1)) :
    ∃ page' db', deleteTuple relOid p page slot tup db = .ok page' db' ∧ Ready db'.wal count := by
  obtain ⟨encoded, lp, hencoded, -, -, hwf, hlength⟩ :=
    hfound.setTuple hpage.wellFormed hpage.restored_eq db.wal.currentXid
  obtain ⟨bytes, hbytes, -⟩ := hfound
  have hreplace : replaceTuple page slot encoded = some (page.setTuple slot encoded) :=
    if_pos (List.getElem?_eq_some_iff.mp hbytes).1
  obtain ⟨record, hrecord, hrecordLength⟩ :=
    LawfulBincodeChanges.serialize_delete relOid p hencoded
  have hsize : record.length ≤ 8192 := by
    simp only [pageSize, pageHeaderSize] at hlength
    omega
  have hready : Ready { db.wal with currentXid := db.wal.currentXid + 1 } (count + 1) :=
    ⟨hwal.segment_pos, hwal.page_length, hwal.lsn_lt⟩
  obtain ⟨lsn, wal', happend, hready', -⟩ := append_ok hready hrecord hsize
  set written := withStorage db.cache
    (writePage db.cache.disk.storage p (image (page.setTuple slot encoded))).2 with hwritten
  refine ⟨page.setTuple slot encoded, ⟨written, wal'⟩, ?_, hready'⟩
  rw [deleteTuple, bind_ok (allocateXid_apply db)]
  simp only [hencoded]
  rw [bind_ok (ofExcept_ok _ _), hreplace, bind_ok (orPanic_some _ _),
    bind_ok (writeHeapPage_ok (serialize_eq_image hwf)), bind_ok (onWal_ok happend)]
  rfl

theorem deleteTuples_completes (relOid : Oid) {work : List (Nat × Tuple)} {count : Nat}
    (hpage : Loaded db.cache.disk.storage p page) (hwork : ∀ entry ∈ work, Found page entry)
    (hnodup : (work.map Prod.fst).Nodup) (hwal : Ready db.wal (count + work.length)) :
    ∃ db', deleteTuples relOid p work page db = .ok () db' ∧ Ready db'.wal count := by
  induction work generalizing page db with
  | nil => exact ⟨db, rfl, hwal⟩
  | cons entry work ih =>
      obtain ⟨hnot, hnodup⟩ := List.nodup_cons.mp hnodup
      obtain ⟨page₁, db₁, hfirst, hready⟩ :=
        deleteTuple_completes relOid hpage (hwork entry List.mem_cons_self) hwal
      obtain ⟨hpage₁, -, -, encoded, -, rfl⟩ :=
        deleteTuple_loaded hpage (hwork entry List.mem_cons_self) hfirst
      have hfound : ∀ other ∈ work, Found (page.setTuple entry.1 encoded) other := by
        intro other hother
        apply (hwork other (List.mem_cons_of_mem _ hother)).of_ne
        intro heq
        exact hnot (List.mem_map.mpr ⟨other, hother, heq.symm⟩)
      obtain ⟨db', hrest, hready'⟩ := ih hpage₁ hfound hnodup hready
      exact ⟨db', (bind_ok hfirst).trans hrest, hready'⟩

end Steps

section Pages

variable [Bincode] {σ : Type} [StorageTrait σ]

/-- How many versions on the pages match the filter. -/
def matchCount (storage : σ) (desc : TupleDesc) (filter : Option Filter) (ids : List PageId) :
    Nat :=
  tupleCount storage (fun page => (matchingTuples page desc filter).length) ids

variable {db db' : Database σ} {desc : TupleDesc} {filter : Option Filter} {ids : List PageId}

theorem matchCount_cons {q : PageId} {page : HeapPage}
    (hat : PageAt db.cache.disk.storage q page) :
    matchCount db.cache.disk.storage desc filter (q :: ids) =
      (matchingTuples page desc filter).length +
        matchCount db.cache.disk.storage desc filter ids := by
  rw [matchCount, tupleCount, List.map_cons, List.sum_cons, pageOf_eq_some.mpr hat]
  rfl

theorem matchCount_congr {storage storage' : σ}
    (h : ∀ q ∈ ids, readPage storage' q = readPage storage q) :
    matchCount storage' desc filter ids = matchCount storage desc filter ids :=
  tupleCount_congr h

theorem found_of_matching (page : HeapPage) :
    ∀ entry ∈ matchingTuples page desc filter, Found page entry := by
  rintro ⟨slot, tup⟩ hentry
  obtain ⟨bytes, hbytes, hdecoded, -⟩ := mem_matchingTuples.mp hentry
  exact ⟨bytes, hbytes, hdecoded⟩

omit [Bincode] in
theorem Elsewhere.same {q : PageId} (h : Elsewhere q db db') (hnot : q ∉ ids) :
    ∀ r ∈ ids, readPage db'.cache.disk.storage r = readPage db.cache.disk.storage r := by
  intro r hr
  apply h.untouched r
  rintro rfl
  exact hnot hr

omit [Bincode] in
theorem Elsewhere.held {q : PageId} (h : Elsewhere q db db') (hnot : q ∉ ids)
    (hheld : ∀ r ∈ ids, ∃ page, Held db.cache.disk.storage r page) :
    ∀ r ∈ ids, ∃ page, Held db'.cache.disk.storage r page := by
  intro r hr
  obtain ⟨page, hpage⟩ := hheld r hr
  exact ⟨page, hpage.wellFormed, (h.same hnot r hr).trans hpage.read_eq⟩

/-- The pages show the rows that do not match. -/
structure Removed (desc : TupleDesc) (filter : Option Filter) (ids : List PageId)
    (db db' : Database σ) : Prop where
  rels_eq : db'.cache.rels = db.cache.rels
  untouched : ∀ q, q ∉ ids → readPage db'.cache.disk.storage q = readPage db.cache.disk.storage q
  pageAt : ∀ q ∈ ids, ∃ page, PageAt db'.cache.disk.storage q page
  rows_eq : scanRows (pageOf db'.cache.disk.storage) desc maxSnapshot ids =
    (scanRows (pageOf db.cache.disk.storage) desc maxSnapshot ids).filter
      fun row => ¬Matches filter row.2

variable [LawfulBincode] [LawfulBincodeReads] [LawfulStorage σ]

theorem deletePages_removed {relOid : Oid} {count : Nat} (hnodup : ids.Nodup)
    (hheld : ∀ q ∈ ids, ∃ page, Held db.cache.disk.storage q page)
    (hxids : ∀ j < matchCount db.cache.disk.storage desc filter ids,
      Deletes (db.wal.currentXid + UInt64.ofNat j))
    (h : deletePages relOid desc filter ids db = .ok count db') :
    Removed desc filter ids db db' := by
  induction ids generalizing db count with
  | nil =>
      cases h
      exact ⟨rfl, fun _ _ => rfl, nofun, rfl⟩
  | cons q ids ih =>
      obtain ⟨hnot, hnodup⟩ := List.nodup_cons.mp hnodup
      obtain ⟨page₀, hpage₀⟩ := hheld q List.mem_cons_self
      have hat := hpage₀.pageAt
      have hloaded := loaded_of_held hpage₀
      rw [matchCount_cons hat] at hxids
      generalize stored page₀ = page at hat hloaded hxids
      rw [deletePages, bind_ok (readHeapPage_eq_ok.mpr ⟨hat, rfl⟩)] at h
      obtain ⟨_, db₁, hfirst, h⟩ := bind_eq_ok.mp h
      obtain ⟨rest, _, hrest, h⟩ := bind_eq_ok.mp h
      cases h
      obtain ⟨⟨page', hat', hstamped⟩, helse, hxid⟩ := deleteTuples_stamped hloaded
        (found_of_matching page) (matchingTuples_nodup page desc filter)
        (fun j hj => hxids j (by omega)) hfirst
      have hsame := helse.same hnot
      have hheld₁ := helse.held hnot fun r hr => hheld r (List.mem_cons_of_mem _ hr)
      have hxids₁ : ∀ j < matchCount db₁.cache.disk.storage desc filter ids,
          Deletes (db₁.wal.currentXid + UInt64.ofNat j) := by
        intro j hj
        rw [matchCount_congr hsame] at hj
        have hnext := hxids ((matchingTuples page desc filter).length + j) (by omega)
        rw [UInt64.ofNat_add, ← UInt64.add_assoc] at hnext
        rw [hxid]
        exact hnext
      have hremoved := ih hnodup hheld₁ hxids₁ hrest
      have hlast : PageAt db'.cache.disk.storage q page' := by
        obtain ⟨data, hread, hdata⟩ := hat'
        exact ⟨data, (hremoved.untouched q hnot).trans hread, hdata⟩
      refine ⟨hremoved.rels_eq.trans helse.rels_eq, ?_, ?_, ?_⟩
      · intro r hr
        obtain ⟨hne, hr⟩ := List.ne_and_not_mem_of_not_mem_cons hr
        exact (hremoved.untouched r hr).trans (helse.untouched r hne)
      · intro r hr
        rcases List.mem_cons.mp hr with rfl | hr
        · exact ⟨page', hlast⟩
        · exact hremoved.pageAt r hr
      · have hrows : scanRows (pageOf db₁.cache.disk.storage) desc maxSnapshot ids =
            scanRows (pageOf db.cache.disk.storage) desc maxSnapshot ids := by
          apply scanRows_congr
          intro r hr
          rw [pageOf_congr (hsame r hr)]
        have htail := hremoved.rows_eq
        rw [hrows] at htail
        rw [scanRows, scanRows, List.flatMap_cons, List.flatMap_cons, List.filter_append,
          pageOf_eq_some.mpr hlast, pageOf_eq_some.mpr hat]
        exact congrArg₂ _ (pageRows_stamped q hstamped) htail

theorem deletePages_completes [LawfulBincodeChanges] (relOid : Oid) {count : Nat}
    (hnodup : ids.Nodup) (hheld : ∀ q ∈ ids, ∃ page, Held db.cache.disk.storage q page)
    (hwal : Ready db.wal (count + matchCount db.cache.disk.storage desc filter ids)) :
    ∃ db', deletePages relOid desc filter ids db =
        .ok (matchCount db.cache.disk.storage desc filter ids) db' ∧ Ready db'.wal count := by
  induction ids generalizing db with
  | nil => exact ⟨db, rfl, hwal⟩
  | cons q ids ih =>
      obtain ⟨hnot, hnodup⟩ := List.nodup_cons.mp hnodup
      obtain ⟨page₀, hpage₀⟩ := hheld q List.mem_cons_self
      have hat := hpage₀.pageAt
      have hloaded := loaded_of_held hpage₀
      rw [matchCount_cons hat] at hwal ⊢
      generalize stored page₀ = page at hat hloaded hwal
      rw [Nat.add_comm (matchingTuples page desc filter).length, ← Nat.add_assoc] at hwal
      obtain ⟨db₁, hfirst, hready⟩ := deleteTuples_completes relOid hloaded
        (found_of_matching page) (matchingTuples_nodup page desc filter) hwal
      obtain ⟨-, helse, -⟩ := @deleteTuples_stamped _ _ _ _ _ _ _ _ _ _ _ (fun _ => True) _
        hloaded (found_of_matching page) (matchingTuples_nodup page desc filter)
        (fun _ _ => trivial) hfirst
      have hsame := helse.same hnot
      have hheld₁ := helse.held hnot fun r hr => hheld r (List.mem_cons_of_mem _ hr)
      rw [← matchCount_congr hsame] at hready ⊢
      obtain ⟨db', hrest, hready'⟩ := ih hnodup hheld₁ hready
      refine ⟨db', ?_, hready'⟩
      rw [deletePages, bind_ok (readHeapPage_eq_ok.mpr ⟨hat, rfl⟩), bind_ok hfirst, bind_ok hrest]
      rfl

end Pages

section Deletion

variable [Bincode] [LawfulBincode] [LawfulBincodeReads] {σ : Type} [StorageTrait σ]
  [LawfulStorage σ] {db : Database σ} {relOid : Oid} {rel : Relation}

omit [Bincode] [LawfulBincode] [LawfulBincodeReads] in
theorem deletes_of_lt {xid : UInt64} {count j : Nat} (hpos : 0 < xid.toNat)
    (hbound : xid.toNat + count < 2 ^ 32) (hj : j < count) : Deletes (xid + UInt64.ofNat j) := by
  have hval : (xid + UInt64.ofNat j).toNat = xid.toNat + j := by
    have hlt : j < 2 ^ 64 := by omega
    rw [UInt64.toNat_add, UInt64.toNat_ofNat_of_lt' hlt]
    exact Nat.mod_eq_of_lt (by omega)
  unfold Deletes
  omega

/-- A delete completes if the log has room for its records, and a table shows after it
the rows it showed before that do not match. -/
theorem tupleDelete_removes_matching [LawfulBincodeChanges]
    (hrel : db.cache.rels.lookup relOid = some rel) (hnodup : rel.pages.Nodup)
    (hheld : ∀ p ∈ rel.pages, ∃ page, Held db.cache.disk.storage p page) (filter : Option Filter)
    (hpos : 0 < db.wal.currentXid.toNat)
    (hxids : db.wal.currentXid.toNat +
      matchCount db.cache.disk.storage rel.tupleDesc filter rel.pages < 2 ^ 32) :
    (Ready db.wal (matchCount db.cache.disk.storage rel.tupleDesc filter rel.pages) →
      ∃ db', tupleDelete relOid filter db =
        .ok (matchCount db.cache.disk.storage rel.tupleDesc filter rel.pages) db') ∧
    ∀ count db', tupleDelete relOid filter db = .ok count db' →
      ∃ rows, slowScan relOid none db = .ok rows db ∧
        slowScan relOid none db' = .ok (rows.filter fun row => ¬Matches filter row.2) db' ∧
        ∀ q, q ∉ rel.pages →
          readPage db'.cache.disk.storage q = readPage db.cache.disk.storage q := by
  have hget : onCache (getRelationState relOid) db = .ok rel db :=
    getRelationState_eq_ok.mpr ⟨hrel, rfl⟩
  constructor
  · intro hready
    rw [← Nat.zero_add (matchCount _ _ _ _)] at hready
    obtain ⟨db', hdelete, -⟩ := deletePages_completes relOid hnodup hheld hready
    exact ⟨db', (bind_ok hget).trans hdelete⟩
  · intro count db' hdelete
    rw [tupleDelete, bind_ok hget] at hdelete
    have hremoved := deletePages_removed hnodup hheld
      (fun j hj => deletes_of_lt hpos hxids hj) hdelete
    have hrel' : db'.cache.rels.lookup relOid = some rel := by
      rw [hremoved.rels_eq]
      exact hrel
    have hget' : onCache (getRelationState relOid) db' = .ok rel db' :=
      getRelationState_eq_ok.mpr ⟨hrel', rfl⟩
    have hbefore : ∀ p ∈ rel.pages, ∃ page, PageAt db.cache.disk.storage p page := by
      intro p hp
      obtain ⟨page, hpage⟩ := hheld p hp
      exact ⟨_, hpage.pageAt⟩
    refine ⟨scanRows (pageOf db.cache.disk.storage) rel.tupleDesc maxSnapshot rel.pages, ?_, ?_,
      hremoved.untouched⟩
    · rw [slowScan, bind_ok hget]
      exact scanPages_rows rel.tupleDesc maxSnapshot hbefore
    · rw [slowScan, bind_ok hget', ← hremoved.rows_eq]
      exact scanPages_rows rel.tupleDesc maxSnapshot hremoved.pageAt

end Deletion

section OnePage

theorem tupleDelete_removes_matching_second :
    ∃ count db' rows,
      tupleDelete ⟨1⟩ (some ⟨0, [98]⟩) (tableOf deletedThenLive) = .ok count db' ∧
      slowScan ⟨1⟩ none (tableOf deletedThenLive) = .ok rows (tableOf deletedThenLive) ∧
      slowScan ⟨1⟩ none db' =
        .ok (rows.filter fun row => ¬Matches (some ⟨0, [98]⟩) row.2) db' := by
  have hwf : WellFormed deletedThenLive := twoVersions_wellFormed _ _ _ _ _ _
  have hat : PageAt (tableOf deletedThenLive).cache.disk.storage ⟨1⟩ (stored deletedThenLive) :=
    (held_write _ _ hwf).pageAt
  have hcount : ∀ rel : Relation, rel.pages = [⟨1⟩] →
      matchCount (tableOf deletedThenLive).cache.disk.storage rel.tupleDesc (some ⟨0, [98]⟩)
        rel.pages ≤ 2 := by
    intro rel hpages
    have hlength : (matchingTuples (stored deletedThenLive) rel.tupleDesc
        (some ⟨0, [98]⟩)).length ≤ 2 := List.length_filterMap_le _ _
    rw [hpages, matchCount_cons hat]
    exact hlength
  have hone : (tableOf deletedThenLive).wal.currentXid.toNat = 1 := rfl
  obtain ⟨hcompletes, hremoves⟩ := tupleDelete_removes_matching
    (tableOf_registered deletedThenLive) (by simp) (tableOf_held hwf) (some ⟨0, [98]⟩)
    (Nat.one_pos.trans_eq hone.symm)
    (by have := hcount { emptyTable with pages := [⟨1⟩] } rfl; omega)
  obtain ⟨db', hdelete⟩ := hcompletes
    (ready_new (by decide) (by have := hcount { emptyTable with pages := [⟨1⟩] } rfl; omega))
  obtain ⟨rows, hbefore, hafter, -⟩ := hremoves _ db' hdelete
  exact ⟨_, db', rows, hdelete, hbefore, hafter⟩

end OnePage

end PostgressRs.Executor.RowRemoval
