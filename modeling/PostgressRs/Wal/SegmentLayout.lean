import Mathlib.Data.List.Induction
import PostgressRs.Wal.LogIntegrity

/-!
What the pages of the log's segments hold: the records of a segment stand one
after the other from its start, and zeros follow them.
-/

namespace PostgressRs.Wal.SegmentLayout

open PostgressRs.Lib.ByteBuffer
open PostgressRs.Lib.Procedure
open PostgressRs.Storage.PageStore
open PostgressRs.Types
open PostgressRs.Wal.LogIntegrity
open PostgressRs.Wal.LogRecord
open PostgressRs.Wal.WriteAheadLog

section Packing

/-- The encoded records of the segments before the last one, and of the last. -/
structure Packing where
  front : List (List Bytes)
  last : List Bytes

namespace Packing

def segments (packing : Packing) : List (List Bytes) := packing.front ++ [packing.last]

/-- A record that does not fit into the last segment starts a new one. -/
def add (segmentSize : Nat) (packing : Packing) (data : Bytes) : Packing :=
  if segmentSize < packing.last.flatten.length + data.length then
    ⟨packing.front ++ [packing.last], [data]⟩
  else ⟨packing.front, packing.last ++ [data]⟩

end Packing

/-- The segments that records are packed into. -/
def packed (segmentSize : Nat) (datas : List Bytes) : Packing :=
  datas.foldl (Packing.add segmentSize) ⟨[], []⟩

/-- The records of a segment. -/
def segmentAt (segments : List (List Bytes)) (segment : Nat) : List Bytes :=
  segments[segment]?.getD []

/-- How many zeros follow the records of a segment. -/
def padding (segmentSize : Nat) (datas : List Bytes) : Nat :=
  if datas = [] then 8192 else segmentSize - datas.flatten.length

def segmentImage (segmentSize : Nat) (datas : List Bytes) : Bytes :=
  datas.flatten ++ List.replicate (padding segmentSize datas) 0

/-- The LSNs of records that stand one after the other. -/
def positions : Nat → List Bytes → List Nat
  | _, [] => []
  | lsn, data :: datas => lsn :: positions (lsn + data.length) datas

/-- The LSNs of the records of the segments from `segment` on. -/
def segmentLsns (segmentSize : Nat) : Nat → List (List Bytes) → List Nat
  | _, [] => []
  | segment, datas :: segments =>
      positions (segment * segmentSize) datas ++ segmentLsns segmentSize (segment + 1) segments

variable {segmentSize : Nat}

theorem segmentAt_eq_getElem {segments : List (List Bytes)} {segment : Nat}
    (h : segment < segments.length) : segmentAt segments segment = segments[segment] := by
  rw [segmentAt, List.getElem?_eq_getElem h, Option.getD_some]

theorem segmentAt_of_length_le {segments : List (List Bytes)} {segment : Nat}
    (h : segments.length ≤ segment) : segmentAt segments segment = [] := by
  rw [segmentAt, List.getElem?_eq_none h, Option.getD_none]

theorem segmentAt_tail (segments : List (List Bytes)) (segment : Nat) :
    segmentAt segments.tail segment = segmentAt segments (segment + 1) := by
  rw [segmentAt, segmentAt, List.getElem?_tail]

theorem segmentAt_drop (segments : List (List Bytes)) (start segment : Nat) :
    segmentAt (segments.drop start) segment = segmentAt segments (start + segment) := by
  rw [segmentAt, segmentAt, List.getElem?_drop]

theorem segmentAt_append_left {front rest : List (List Bytes)} {segment : Nat}
    (h : segment < front.length) : segmentAt (front ++ rest) segment = segmentAt front segment := by
  rw [segmentAt, segmentAt, List.getElem?_append_left h]

theorem segmentAt_length (front : List (List Bytes)) (datas : List Bytes)
    (rest : List (List Bytes)) : segmentAt (front ++ datas :: rest) front.length = datas := by
  rw [segmentAt, List.getElem?_append_right (Nat.le_refl _), Nat.sub_self]
  rfl

theorem positions_append (lsn : Nat) (datas datas' : List Bytes) :
    positions lsn (datas ++ datas') =
      positions lsn datas ++ positions (lsn + datas.flatten.length) datas' := by
  induction datas generalizing lsn with
  | nil => rfl
  | cons data datas ih =>
      rw [List.cons_append, positions, positions, ih, List.cons_append, List.flatten_cons,
        List.length_append, Nat.add_assoc]

theorem segmentLsns_append (segment : Nat) (front rest : List (List Bytes)) :
    segmentLsns segmentSize segment (front ++ rest) =
      segmentLsns segmentSize segment front ++
        segmentLsns segmentSize (segment + front.length) rest := by
  induction front generalizing segment with
  | nil => rfl
  | cons datas front ih =>
      rw [List.cons_append, segmentLsns, segmentLsns, ih, List.append_assoc, List.length_cons]
      congr 3
      omega

theorem mem_positions {lsn start : Nat} {datas : List Bytes}
    (hdatas : ∀ data ∈ datas, data ≠ []) (h : lsn ∈ positions start datas) :
    start ≤ lsn ∧ lsn < start + datas.flatten.length := by
  induction datas generalizing start with
  | nil => cases h
  | cons data datas ih =>
      have hpos := List.length_pos_iff.mpr (hdatas data List.mem_cons_self)
      rw [List.flatten_cons, List.length_append]
      rcases List.mem_cons.mp h with rfl | h
      · omega
      · obtain ⟨hle, hlt⟩ := ih (fun data' hmem => hdatas data' (List.mem_cons_of_mem _ hmem)) h
        omega

theorem mem_segmentLsns {lsn segment : Nat} {segments : List (List Bytes)}
    (hsegments : ∀ i, ∀ data ∈ segmentAt segments i, data ≠ [])
    (h : lsn ∈ segmentLsns segmentSize segment segments) :
    ∃ i, (segment + i) * segmentSize ≤ lsn ∧
      lsn < (segment + i) * segmentSize + (segmentAt segments i).flatten.length := by
  induction segments generalizing segment with
  | nil => cases h
  | cons datas segments ih =>
      rcases List.mem_append.mp h with h | h
      · exact ⟨0, mem_positions (hsegments 0) h⟩
      · obtain ⟨i, hbounds⟩ := ih (fun i => hsegments (i + 1)) h
        refine ⟨i + 1, ?_⟩
        rw [← segmentAt_tail, Nat.add_comm i 1, ← Nat.add_assoc]
        exact hbounds

/-- Where the next record goes: the records that its segment has already. -/
def Packing.room (segmentSize : Nat) (packing : Packing) (data : Bytes) : List Bytes :=
  if segmentSize < packing.last.flatten.length + data.length then [] else packing.last

namespace Packing

variable {packing : Packing} {data : Bytes}

theorem add_last (segmentSize : Nat) (packing : Packing) (data : Bytes) :
    (packing.add segmentSize data).last = packing.room segmentSize data ++ [data] := by
  unfold add room
  split
  · rfl
  · rfl

theorem room_fits (hsize : data.length ≤ segmentSize) :
    (packing.room segmentSize data).flatten.length + data.length ≤ segmentSize := by
  unfold room
  split
  · rw [List.flatten_nil, List.length_nil]
    omega
  · omega

theorem segmentAt_room (segmentSize : Nat) (packing : Packing) (data : Bytes) :
    segmentAt packing.segments (packing.add segmentSize data).front.length =
      packing.room segmentSize data := by
  unfold add room segments
  split
  · exact segmentAt_of_length_le (Nat.le_refl _)
  · exact segmentAt_length _ _ _

/-- Only the segment of the new record changes. -/
theorem segmentAt_add_of_ne {segment : Nat}
    (hne : segment ≠ (packing.add segmentSize data).front.length) :
    segmentAt (packing.add segmentSize data).segments segment =
      segmentAt packing.segments segment := by
  have hlt : segment < (packing.add segmentSize data).front.length ∨
      (packing.add segmentSize data).front.length < segment := by omega
  rcases hlt with hlt | hgt
  · unfold add segments at *
    split at hlt
    · rw [if_pos (by assumption), segmentAt_append_left hlt]
    · rw [if_neg (by assumption), segmentAt_append_left hlt, segmentAt_append_left hlt]
  · have hlen : (packing.add segmentSize data).segments.length ≤ segment := by
      rw [segments, List.length_append]
      exact hgt
    have hlen' : packing.segments.length ≤ (packing.add segmentSize data).segments.length := by
      unfold add segments
      split
      · simp
      · simp
    rw [segmentAt_of_length_le hlen, segmentAt_of_length_le (Nat.le_trans hlen' hlen)]

theorem segmentAt_add (segmentSize : Nat) (packing : Packing) (data : Bytes) :
    segmentAt (packing.add segmentSize data).segments
      (packing.add segmentSize data).front.length =
        packing.room segmentSize data ++ [data] := by
  rw [segments, segmentAt_length, add_last]

theorem mem_segmentAt_add {data' : Bytes} {segment : Nat}
    (h : data' ∈ segmentAt (packing.add segmentSize data).segments segment) :
    data' ∈ segmentAt packing.segments segment ∨ data' = data := by
  by_cases hat : segment = (packing.add segmentSize data).front.length
  · rw [hat, segmentAt_add, ← segmentAt_room, ← hat] at h
    exact (List.mem_append.mp h).imp id List.mem_singleton.mp
  · rw [segmentAt_add_of_ne hat] at h
    exact Or.inl h

theorem segmentLsns_add (segmentSize : Nat) (packing : Packing) (data : Bytes) :
    segmentLsns segmentSize 0 (packing.add segmentSize data).segments =
      segmentLsns segmentSize 0 packing.segments ++
        [(packing.add segmentSize data).front.length * segmentSize +
          (packing.room segmentSize data).flatten.length] := by
  unfold add room segments
  split
  · rw [segmentLsns_append]
    simp [segmentLsns, positions]
  · rw [segmentLsns_append, segmentLsns_append, segmentLsns, positions_append]
    simp [segmentLsns, positions]

end Packing

/-- Packed records are the given ones. -/
theorem mem_packed {data : Bytes} {datas : List Bytes} {segment : Nat}
    (h : data ∈ segmentAt (packed segmentSize datas).segments segment) : data ∈ datas := by
  induction datas using List.reverseRecOn with
  | nil =>
      cases segment with
      | zero => cases h
      | succ segment => cases h
  | append_singleton datas data' ih =>
      rw [packed, List.foldl_concat] at h
      rcases Packing.mem_segmentAt_add h with h | rfl
      · exact List.mem_append_left _ (ih h)
      · exact List.mem_append_right _ (List.mem_singleton_self _)

theorem packed_last_pos {datas : List Bytes} (hne : datas ≠ [])
    (hdatas : ∀ data ∈ datas, data ≠ []) :
    0 < (packed segmentSize datas).last.flatten.length := by
  rcases List.eq_nil_or_concat' datas with rfl | ⟨front, data, rfl⟩
  · exact absurd rfl hne
  · have hdata := hdatas data (List.mem_append_right _ (List.mem_singleton_self _))
    rw [packed, List.foldl_concat, Packing.add_last, List.flatten_append, List.flatten_singleton,
      List.length_append]
    exact Nat.add_pos_right _ (List.length_pos_iff.mpr hdata)

end Packing

section Layout

theorem growTo_segmentImage {segmentSize : Nat} {datas : List Bytes} (hpage : 8192 ≤ segmentSize)
    (hle : datas.flatten.length ≤ segmentSize) :
    growTo segmentSize (segmentImage segmentSize datas) =
      datas.flatten ++ List.replicate (segmentSize - datas.flatten.length) 0 := by
  rw [growTo_eq_append, segmentImage, List.append_assoc, List.replicate_append_replicate,
    List.length_append, List.length_replicate, padding]
  congr 2
  split
  · rename_i hnil
    subst hnil
    rw [List.flatten_nil, List.length_nil]
    omega
  · omega

/-- A record is written over the zeros that follow the records of its segment. -/
theorem copyFromSlice_segmentImage {segmentSize : Nat} {datas : List Bytes} {data page' : Bytes}
    (hpage : 8192 ≤ segmentSize) (hle : datas.flatten.length ≤ segmentSize)
    (hcopy : copyFromSlice (growTo segmentSize (segmentImage segmentSize datas))
      datas.flatten.length data = some page') :
    datas.flatten.length + data.length ≤ segmentSize ∧
      page' = segmentImage segmentSize (datas ++ [data]) := by
  rw [growTo_segmentImage hpage hle] at hcopy
  unfold copyFromSlice at hcopy
  split at hcopy
  · rename_i hfits
    cases hcopy
    rw [List.length_append, List.length_replicate] at hfits
    have hdrop : (datas.flatten ++ List.replicate (segmentSize - datas.flatten.length)
        (0 : UInt8)).drop (datas.flatten.length + data.length) =
          List.replicate (segmentSize - (datas.flatten.length + data.length)) 0 := by
      rw [List.drop_append, List.drop_eq_nil_of_le (Nat.le_add_right _ _), List.nil_append,
        List.drop_replicate]
      congr 1
      omega
    refine ⟨by omega, ?_⟩
    rw [List.take_left, hdrop, segmentImage, padding,
      if_neg (List.append_ne_nil_of_right_ne_nil _ (List.cons_ne_nil _ _)), List.flatten_append,
      List.flatten_singleton, List.length_append]
  · cases hcopy

/-- The log's segments hold the packed records, up to the last page that a
`u32` can name. -/
structure Laid (wal : WAL) (packing : Packing) : Prop where
  currentLsn_eq : wal.currentLsn =
    packing.front.length * wal.segmentSize.toNat + packing.last.flatten.length
  segment_le : ∀ segment,
    (segmentAt packing.segments segment).flatten.length ≤ wal.segmentSize.toNat
  readPage_eq : ∀ segment < 2 ^ 31, readPage wal.storage ⟨UInt32.ofNat (segment + 1)⟩ =
    .ok (segmentImage wal.segmentSize.toNat (segmentAt packing.segments segment))

theorem laid_new (segmentSize : UInt32) : Laid (WAL.new segmentSize) ⟨[], []⟩ := by
  have hempty : ∀ segment, segmentAt (Packing.segments ⟨[], []⟩) segment = [] := by
    intro segment
    cases segment with
    | zero => rfl
    | succ segment => rfl
  refine ⟨?_, ?_, ?_⟩
  · simp [WAL.new]
  · intro segment
    rw [hempty]
    exact Nat.zero_le _
  · intro segment _
    rw [hempty, EphemeralStorage.readPage_eq]
    rfl

/-- Where `append` puts a record. -/
theorem placeAt_packing {segmentSize : Nat} {packing : Packing} {data : Bytes}
    (hlast : packing.last.flatten.length ≤ segmentSize) (hdata : 0 < data.length)
    (hsize : data.length ≤ segmentSize) :
    placeAt segmentSize (packing.front.length * segmentSize + packing.last.flatten.length)
      data.length =
        (packing.add segmentSize data).front.length * segmentSize +
          (packing.room segmentSize data).flatten.length := by
  unfold placeAt Packing.add Packing.room
  rw [Nat.mul_add_mod']
  rcases Nat.lt_or_eq_of_le hlast with hlt | heq
  · rw [Nat.mod_eq_of_lt hlt]
    split
    · rw [List.length_append, List.length_singleton, List.flatten_nil, List.length_nil,
        Nat.add_mul, Nat.one_mul]
      omega
    · rfl
  · rw [heq, Nat.mod_self, if_neg (by omega), if_pos (by omega), if_pos (by omega),
      List.length_append, List.length_singleton, List.flatten_nil, List.length_nil, Nat.add_mul,
      Nat.one_mul, Nat.add_zero]

variable [Bincode] [BincodeRecords] [LawfulBincodeRecords]

/-- `append` adds the record to the packing. -/
theorem append_laid {wal wal' : WAL} {packing : Packing} {record : WALRecord} {data : Bytes}
    {lsn : Nat} (h : Laid wal packing) (hpage : 8192 ≤ wal.segmentSize.toNat)
    (hdata : serializeRecord record = .ok data) (happend : append record wal = .ok lsn wal')
    (hend : wal'.currentLsn ≤ 2 ^ 31 * wal.segmentSize.toNat) :
    wal'.segmentSize = wal.segmentSize ∧ data.length < 2 ^ 64 ∧
      Laid wal' (packing.add wal.segmentSize.toNat data) ∧
      segmentLsns wal.segmentSize.toNat 0 (packing.add wal.segmentSize.toNat data).segments =
        segmentLsns wal.segmentSize.toNat 0 packing.segments ++ [lsn] := by
  obtain ⟨data', page, page', hdata', hpos, hstart, hbound, hread, hcopy, rfl⟩ :=
    append_cases happend
  rw [hdata] at hdata'
  cases hdata'
  have hnonempty := List.length_pos_iff.mpr (serializeRecord_ne_nil hdata)
  have hlsn := recordStart_eq_some hstart
  change lsn + data.length ≤ _ at hend
  have hsegment : lsn / wal.segmentSize.toNat < 2 ^ 31 :=
    Nat.div_lt_of_lt_mul (by rw [Nat.mul_comm]; omega)
  have hpageEq := h.readPage_eq _ hsegment
  rw [segmentPage, Nat.add_comm, hpageEq] at hread
  cases hread
  have hsize : data.length ≤ wal.segmentSize.toNat := by
    have hfits : lsn % wal.segmentSize.toNat + data.length ≤ (growTo wal.segmentSize.toNat
        (segmentImage wal.segmentSize.toNat
          (segmentAt packing.segments (lsn / wal.segmentSize.toNat)))).length := by
      by_contra hout
      rw [copyFromSlice, if_neg hout] at hcopy
      cases hcopy
    have hle := h.segment_le (lsn / wal.segmentSize.toNat)
    rw [growTo_segmentImage hpage hle, List.length_append, List.length_replicate] at hfits
    omega
  have hlast : packing.last.flatten.length ≤ wal.segmentSize.toNat := by
    have hle := h.segment_le packing.front.length
    rwa [Packing.segments, segmentAt_length] at hle
  have hroom := packing.room_fits hsize
  rw [h.currentLsn_eq, placeAt_packing hlast hnonempty hsize] at hlsn
  have hdiv : lsn / wal.segmentSize.toNat =
      (packing.add wal.segmentSize.toNat data).front.length := by
    rw [hlsn, Nat.mul_comm, Nat.mul_add_div hpos, Nat.div_eq_of_lt (by omega), Nat.add_zero]
  have hmod : lsn % wal.segmentSize.toNat =
      (packing.room wal.segmentSize.toNat data).flatten.length := by
    rw [hlsn, Nat.mul_add_mod', Nat.mod_eq_of_lt (by omega)]
  rw [hdiv, hmod, Packing.segmentAt_room] at hcopy
  obtain ⟨_, rfl⟩ := copyFromSlice_segmentImage hpage (by omega) hcopy
  refine ⟨rfl, by omega, ⟨?_, ?_, ?_⟩, ?_⟩
  · change lsn + data.length = _ * wal.segmentSize.toNat + _
    rw [Packing.add_last, List.flatten_append, List.flatten_singleton, List.length_append]
    omega
  · intro segment
    change _ ≤ wal.segmentSize.toNat
    by_cases hat : segment = (packing.add wal.segmentSize.toNat data).front.length
    · rw [hat, Packing.segmentAt_add, List.flatten_append, List.flatten_singleton,
        List.length_append]
      exact hroom
    · rw [Packing.segmentAt_add_of_ne hat]
      exact h.segment_le segment
  · intro segment hlt
    change readPage (writePage wal.storage (segmentPage wal.segmentSize.toNat lsn) _).2 _ =
      .ok (segmentImage wal.segmentSize.toNat _)
    rw [segmentPage, hdiv]
    by_cases hat : segment = (packing.add wal.segmentSize.toNat data).front.length
    · rw [hat, Packing.segmentAt_add, Nat.add_comm 1, LawfulStorage.read_write_self]
    · have hother : (⟨UInt32.ofNat (segment + 1)⟩ : PageId) ≠
          ⟨UInt32.ofNat (1 + (packing.add wal.segmentSize.toNat data).front.length)⟩ := by
        intro heq
        have hval := congrArg UInt32.toNat (congrArg PageId.val heq)
        simp only [UInt32.toNat_ofNat'] at hval
        omega
      rw [Packing.segmentAt_add_of_ne hat, LawfulStorage.read_write_of_ne _ _ _ _ hother]
      exact h.readPage_eq segment hlt
  · rw [Packing.segmentLsns_add, hlsn]

/-- A log that was appended to holds the records in the order of the appends. -/
theorem appendAll_laid {records : List WALRecord} {datas : List Bytes} {wal wal' : WAL}
    {packing : Packing} {lsns : List Nat} (h : Laid wal packing)
    (hpage : 8192 ≤ wal.segmentSize.toNat)
    (hdatas : List.Forall₂ (fun record data => serializeRecord record = .ok data) records datas)
    (happend : appendAll records wal = .ok lsns wal')
    (hend : wal'.currentLsn ≤ 2 ^ 31 * wal.segmentSize.toNat) :
    wal'.segmentSize = wal.segmentSize ∧ (∀ data ∈ datas, data.length < 2 ^ 64) ∧
      Laid wal' (datas.foldl (Packing.add wal.segmentSize.toNat) packing) ∧
      segmentLsns wal.segmentSize.toNat 0
        (datas.foldl (Packing.add wal.segmentSize.toNat) packing).segments =
          segmentLsns wal.segmentSize.toNat 0 packing.segments ++ lsns := by
  induction hdatas generalizing wal packing lsns with
  | nil =>
      cases happend
      exact ⟨rfl, by simp, h, by simp⟩
  | @cons record data records datas hdata hdatas ih =>
      obtain ⟨lsn, wal₁, hfirst, happend⟩ := bind_eq_ok.mp happend
      obtain ⟨lsns', wal₂, hrest, happend⟩ := bind_eq_ok.mp happend
      cases happend
      have hmono : wal₁.currentLsn ≤ wal'.currentLsn := by
        rw [appendAll_currentLsn hdatas hrest]
        exact le_logEnd _ _ _
      obtain ⟨hsize, hlen, hlaid, hlsns⟩ :=
        append_laid h hpage hdata hfirst (Nat.le_trans hmono hend)
      obtain ⟨hsize', hlens, hlaid', hlsns'⟩ :=
        @ih wal₁ (packing.add wal.segmentSize.toNat data) lsns' hlaid (by rwa [hsize]) hrest
          (by rwa [hsize])
      rw [hsize] at hsize' hlaid' hlsns'
      refine ⟨hsize', ?_, hlaid', ?_⟩
      · intro data' hmem
        rcases List.mem_cons.mp hmem with rfl | hmem
        · exact hlen
        · exact hlens data' hmem
      · rw [List.foldl_cons, hlsns', hlsns, List.append_assoc]
        rfl

end Layout

end PostgressRs.Wal.SegmentLayout
