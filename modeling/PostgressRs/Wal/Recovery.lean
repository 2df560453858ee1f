import PostgressRs.Wal.SegmentLayout

/-!
Recovery (`src/wal/recovery.rs`).  The reader finds the end of a record by
encoding what it has decoded, and stops in a segment where nothing can be
decoded.  `apply_record` does nothing.  Of the control file only the LSNs that
recovery reads and sets are kept.
-/

namespace PostgressRs.Wal.Recovery

open PostgressRs.Lib.ByteBuffer
open PostgressRs.Lib.Procedure
open PostgressRs.Storage.PageStore
open PostgressRs.Types
open PostgressRs.Wal.LogIntegrity
open PostgressRs.Wal.LogRecord
open PostgressRs.Wal.SegmentLayout
open PostgressRs.Wal.WriteAheadLog

structure ControlFile where
  redoLsn : Nat
  checkPointLsn : Nat

structure RecoveryResult where
  replayedLsn : Nat
  recordsReplayed : Nat
  consistent : Bool

/-- The segment size that recovery assumes. -/
def recoverySegmentSize : Nat := 16 * 1024 * 1024

/-- `replayed_lsn` and `records_replayed`. -/
structure Progress where
  replayedLsn : Nat
  recordsReplayed : Nat

section

variable [Bincode] [BincodeRecords]

/-- The loop over a segment's page, from the byte at `lsn` on. -/
def replayPage (redoLsn : Nat) (rest : Bytes) (lsn : Nat) (progress : Progress) : Progress :=
  if _hrest : rest = [] then progress
  else
    match deserializeRecord rest with
    | .error _ => progress
    | .ok record =>
        let dataLen :=
          match serializeRecord record with
          | .ok data => data.length
          | .error _ => 0
        if _hlen : dataLen = 0 then progress
        else
          let recordsReplayed :=
            if redoLsn ≤ lsn then progress.recordsReplayed + 1 else progress.recordsReplayed
          replayPage redoLsn (rest.drop dataLen) (lsn + dataLen) ⟨lsn + dataLen, recordsReplayed⟩
termination_by rest.length
decreasing_by
  have hpos := List.length_pos_iff.mpr _hrest
  rw [List.length_drop]
  omega

variable {σ : Type} [StorageTrait σ]

def replaySegments (storage : σ) (redoLsn : Nat) : List Nat → Progress → Progress
  | [], progress => progress
  | seg :: segs, progress =>
      match readPage storage ⟨UInt32.ofNat (seg + 1)⟩ with
      | .ok pageData =>
          replaySegments storage redoLsn segs
            (replayPage redoLsn pageData (seg * recoverySegmentSize) progress)
      | .error _ => progress

/-- A `none` is a panic: segment numbers are `u32`. -/
def recover (control : ControlFile) (storage : σ) : Option (RecoveryResult × ControlFile) :=
  let startSegment := (control.redoLsn / recoverySegmentSize) % 2 ^ 32
  if startSegment + 10 < 2 ^ 32 then
    let progress := replaySegments storage control.redoLsn (List.range' startSegment 10)
      ⟨control.redoLsn, 0⟩
    some
      (⟨progress.replayedLsn, progress.recordsReplayed, true⟩,
        ⟨progress.replayedLsn, progress.replayedLsn⟩)
  else none

end

section Pages

variable [Bincode] [BincodeRecords] [LawfulBincodeRecords]

/-- How many of the LSNs are replayed. -/
def replayed (redoLsn : Nat) (lsns : List Nat) : Nat :=
  (lsns.filter fun lsn => redoLsn ≤ lsn).length

/-- Encodings of records, short enough to have a length. -/
def Encoded (data : Bytes) : Prop :=
  ∃ record, serializeRecord record = .ok data ∧ data.length < 2 ^ 64

theorem replayPage_record {redoLsn lsn : Nat} {data : Bytes} (hdata : Encoded data) (rest : Bytes)
    (progress : Progress) :
    replayPage redoLsn (data ++ rest) lsn progress =
      replayPage redoLsn rest (lsn + data.length)
        ⟨lsn + data.length,
          if redoLsn ≤ lsn then progress.recordsReplayed + 1 else progress.recordsReplayed⟩ := by
  obtain ⟨record, hrecord, hlen⟩ := hdata
  have hne := serializeRecord_ne_nil hrecord
  have hpos : data.length ≠ 0 := fun hzero => hne (List.length_eq_zero_iff.mp hzero)
  have hrest : data ++ rest ≠ [] := fun hnil => hne (List.append_eq_nil_iff.mp hnil).1
  rw [replayPage, dif_neg hrest]
  simp only [LawfulBincodeRecords.deserialize_append rest hrecord hlen, hrecord, hpos, dite_false,
    List.drop_left]

omit [Bincode] [BincodeRecords] [LawfulBincodeRecords] in
theorem replayed_cons (redoLsn lsn : Nat) (lsns : List Nat) :
    replayed redoLsn (lsn :: lsns) = (if redoLsn ≤ lsn then 1 else 0) + replayed redoLsn lsns := by
  unfold replayed
  by_cases hle : redoLsn ≤ lsn
  · rw [List.filter_cons_of_pos (by simpa using hle), if_pos hle, List.length_cons, Nat.add_comm]
  · rw [List.filter_cons_of_neg (by simpa using hle), if_neg hle, Nat.zero_add]

/-- The records at the front of a page are replayed as they were written. -/
theorem replayPage_records {redoLsn lsn : Nat} {datas : List Bytes}
    (hdatas : ∀ data ∈ datas, Encoded data) (rest : Bytes) (progress : Progress) :
    replayPage redoLsn (datas.flatten ++ rest) lsn progress =
      replayPage redoLsn rest (lsn + datas.flatten.length)
        ⟨if datas = [] then progress.replayedLsn else lsn + datas.flatten.length,
          progress.recordsReplayed + replayed redoLsn (positions lsn datas)⟩ := by
  induction datas generalizing lsn progress with
  | nil => simp [replayed, positions]
  | cons data datas ih =>
      have hlsn : lsn + (data :: datas).flatten.length =
          lsn + data.length + datas.flatten.length := by
        rw [List.flatten_cons, List.length_append, Nat.add_assoc]
      have hcount : progress.recordsReplayed + replayed redoLsn (positions lsn (data :: datas)) =
          (if redoLsn ≤ lsn then progress.recordsReplayed + 1 else progress.recordsReplayed) +
            replayed redoLsn (positions (lsn + data.length) datas) := by
        rw [positions, replayed_cons]
        split
        · omega
        · omega
      have hlast : (if datas = [] then lsn + data.length
          else lsn + data.length + datas.flatten.length) =
            lsn + data.length + datas.flatten.length := by
        split
        · rename_i hnil
          rw [hnil]
          rfl
        · rfl
      rw [hcount, hlsn, if_neg (List.cons_ne_nil _ _), List.flatten_cons, List.append_assoc,
        replayPage_record (hdatas data List.mem_cons_self),
        ih fun data' hmem => hdatas data' (List.mem_cons_of_mem _ hmem), hlast]

/-- Nothing is decoded from fewer than twelve zeros. -/
theorem replayPage_short {redoLsn lsn count : Nat} (h : count < 12) (progress : Progress) :
    replayPage redoLsn (List.replicate count 0) lsn progress = progress := by
  obtain ⟨e, hshort⟩ := LawfulBincodeRecords.deserialize_short h
  rw [replayPage]
  split
  · rfl
  · rw [hshort]

theorem encoded_zeros : Encoded (List.replicate 12 0) :=
  ⟨.begin 0, LawfulBincodeRecords.serialize_begin_zero, by rw [List.length_replicate]; decide⟩

/-- Twelve zeros are replayed as a record. -/
theorem replayPage_zeros {redoLsn lsn count : Nat} (h : 12 ≤ count) (progress : Progress) :
    replayPage redoLsn (List.replicate count 0) lsn progress =
      replayPage redoLsn (List.replicate (count - 12) 0) (lsn + 12)
        ⟨lsn + 12,
          if redoLsn ≤ lsn then progress.recordsReplayed + 1 else progress.recordsReplayed⟩ := by
  have hsplit : List.replicate count (0 : UInt8) =
      List.replicate 12 0 ++ List.replicate (count - 12) 0 := by
    rw [List.replicate_append_replicate]
    congr 1
    omega
  rw [hsplit, replayPage_record encoded_zeros, List.length_replicate]

theorem le_replayPage_zeros (redoLsn lsn count : Nat) (progress : Progress) :
    progress.recordsReplayed ≤
      (replayPage redoLsn (List.replicate count 0) lsn progress).recordsReplayed := by
  induction count using Nat.strong_induction_on generalizing lsn progress with
  | _ count ih =>
      by_cases hcount : count < 12
      · rw [replayPage_short hcount]
      · rw [replayPage_zeros (by omega)]
        refine Nat.le_trans ?_ (ih (count - 12) (by omega) (lsn + 12) _)
        simp only
        split
        · omega
        · omega

/-- Padding of twelve bytes or more counts as records. -/
theorem lt_replayPage_zeros {redoLsn lsn count : Nat} (hcount : 12 ≤ count)
    (hredo : redoLsn ≤ lsn) (progress : Progress) :
    progress.recordsReplayed <
      (replayPage redoLsn (List.replicate count 0) lsn progress).recordsReplayed := by
  rw [replayPage_zeros hcount, if_pos hredo]
  exact le_replayPage_zeros redoLsn (lsn + 12) (count - 12)
    ⟨lsn + 12, progress.recordsReplayed + 1⟩

/-- The records of a segment, and then its zeros. -/
theorem replayPage_segmentImage {redoLsn segmentSize lsn : Nat} {datas : List Bytes}
    (hdatas : ∀ data ∈ datas, Encoded data) (progress : Progress) :
    replayPage redoLsn (segmentImage segmentSize datas) lsn progress =
      replayPage redoLsn (List.replicate (padding segmentSize datas) 0)
        (lsn + datas.flatten.length)
        ⟨if datas = [] then progress.replayedLsn else lsn + datas.flatten.length,
          progress.recordsReplayed + replayed redoLsn (positions lsn datas)⟩ :=
  replayPage_records hdatas _ progress

theorem le_replayPage_segmentImage {redoLsn segmentSize lsn : Nat} {datas : List Bytes}
    (hdatas : ∀ data ∈ datas, Encoded data) (progress : Progress) :
    progress.recordsReplayed + replayed redoLsn (positions lsn datas) ≤
      (replayPage redoLsn (segmentImage segmentSize datas) lsn progress).recordsReplayed := by
  rw [replayPage_segmentImage hdatas]
  exact le_replayPage_zeros redoLsn _ _ ⟨_, _⟩

theorem lt_replayPage_segmentImage {redoLsn segmentSize lsn : Nat} {datas : List Bytes}
    (hdatas : ∀ data ∈ datas, Encoded data) (hpadding : 12 ≤ padding segmentSize datas)
    (hredo : redoLsn ≤ lsn + datas.flatten.length) (progress : Progress) :
    progress.recordsReplayed + replayed redoLsn (positions lsn datas) <
      (replayPage redoLsn (segmentImage segmentSize datas) lsn progress).recordsReplayed := by
  rw [replayPage_segmentImage hdatas]
  exact lt_replayPage_zeros hpadding hredo ⟨_, _⟩

end Pages

section Segments

variable [Bincode] [BincodeRecords] [LawfulBincodeRecords]
variable {σ : Type} [StorageTrait σ] {storage : σ} {redoLsn start count : Nat}
  {segments : List (List Bytes)}

/-- The store holds the segments from `start` on. -/
def Holds (storage : σ) (start count : Nat) (segments : List (List Bytes)) : Prop :=
  ∀ i < count, readPage storage ⟨UInt32.ofNat (start + i + 1)⟩ =
    .ok (segmentImage recoverySegmentSize (segmentAt segments i))

omit [Bincode] [BincodeRecords] [LawfulBincodeRecords] in
theorem Holds.tail {segments : List (List Bytes)} (h : Holds storage start (count + 1) segments) :
    Holds storage (start + 1) count segments.tail := by
  intro i hi
  have hread := h (i + 1) (Nat.succ_lt_succ hi)
  rwa [← segmentAt_tail, show start + (i + 1) + 1 = start + 1 + i + 1 by omega] at hread

omit [Bincode] [BincodeRecords] [LawfulBincodeRecords] in
theorem replayed_append (redoLsn : Nat) (lsns lsns' : List Nat) :
    replayed redoLsn (lsns ++ lsns') = replayed redoLsn lsns + replayed redoLsn lsns' := by
  rw [replayed, List.filter_append, List.length_append]
  rfl

omit [Bincode] [BincodeRecords] [LawfulBincodeRecords] in
theorem replayed_segmentLsns (redoLsn segmentSize start : Nat) (segments : List (List Bytes)) :
    replayed redoLsn (segmentLsns segmentSize start segments) =
      replayed redoLsn (positions (start * segmentSize) (segmentAt segments 0)) +
        replayed redoLsn (segmentLsns segmentSize (start + 1) segments.tail) := by
  cases segments with
  | nil => rfl
  | cons datas segments => exact replayed_append _ _ _

omit [LawfulBincodeRecords] in
theorem replaySegments_succ (hholds : Holds storage start (count + 1) segments)
    (progress : Progress) :
    replaySegments storage redoLsn (List.range' start (count + 1)) progress =
      replaySegments storage redoLsn (List.range' (start + 1) count)
        (replayPage redoLsn (segmentImage recoverySegmentSize (segmentAt segments 0))
          (start * recoverySegmentSize) progress) := by
  have hread := hholds 0 (Nat.succ_pos _)
  rw [Nat.add_zero] at hread
  rw [List.range'_succ, replaySegments, hread]

/-- No record is missed. -/
theorem le_replaySegments (hholds : Holds storage start count segments)
    (hcount : segments.length ≤ count)
    (hencoded : ∀ i, ∀ data ∈ segmentAt segments i, Encoded data) (progress : Progress) :
    progress.recordsReplayed + replayed redoLsn (segmentLsns recoverySegmentSize start segments) ≤
      (replaySegments storage redoLsn (List.range' start count) progress).recordsReplayed := by
  induction count generalizing start segments progress with
  | zero =>
      rw [List.length_eq_zero_iff.mp (Nat.le_zero.mp hcount)]
      exact Nat.le_refl _
  | succ count ih =>
      have htail : segments.tail.length ≤ count := by
        rw [List.length_tail]
        omega
      rw [replaySegments_succ hholds, replayed_segmentLsns, ← Nat.add_assoc]
      refine Nat.le_trans ?_ (ih hholds.tail htail (fun i => ?_) _)
      · exact Nat.add_le_add_right (le_replayPage_segmentImage (hencoded 0) progress) _
      · rw [segmentAt_tail]
        exact hencoded (i + 1)

/-- Where twelve zeros follow the records of a segment, recovery counts more
records than the log has. -/
theorem lt_replaySegments (hholds : Holds storage start count segments)
    (hcount : segments.length ≤ count)
    (hencoded : ∀ i, ∀ data ∈ segmentAt segments i, Encoded data) {i : Nat} (hi : i < count)
    (hpadding : 12 ≤ padding recoverySegmentSize (segmentAt segments i))
    (hredo : redoLsn ≤
      (start + i) * recoverySegmentSize + (segmentAt segments i).flatten.length)
    (progress : Progress) :
    progress.recordsReplayed + replayed redoLsn (segmentLsns recoverySegmentSize start segments) <
      (replaySegments storage redoLsn (List.range' start count) progress).recordsReplayed := by
  induction count generalizing start segments progress i with
  | zero => cases hi
  | succ count ih =>
      have htail : segments.tail.length ≤ count := by
        rw [List.length_tail]
        omega
      have hencoded' : ∀ i, ∀ data ∈ segmentAt segments.tail i, Encoded data := by
        intro i
        rw [segmentAt_tail]
        exact hencoded (i + 1)
      rw [replaySegments_succ hholds, replayed_segmentLsns, ← Nat.add_assoc]
      cases i with
      | zero =>
          refine Nat.lt_of_lt_of_le ?_ (le_replaySegments hholds.tail htail hencoded' _)
          exact Nat.add_lt_add_right
            (lt_replayPage_segmentImage (hencoded 0) hpadding hredo progress) _
      | succ i =>
          rw [← segmentAt_tail] at hpadding hredo
          refine Nat.lt_of_le_of_lt ?_ (ih hholds.tail htail hencoded' (Nat.lt_of_succ_lt_succ hi)
            hpadding (by rwa [Nat.add_assoc, Nat.add_comm 1]) _)
          exact Nat.add_le_add_right (le_replayPage_segmentImage (hencoded 0) progress) _

/-- Full segments are replayed as they were written. -/
theorem replaySegments_full (hholds : Holds storage start (count + 1) segments)
    (hcount : segments.length ≤ count + 1)
    (hencoded : ∀ i, ∀ data ∈ segmentAt segments i, Encoded data)
    (hfull : ∀ i < count + 1, padding recoverySegmentSize (segmentAt segments i) < 12)
    (progress : Progress) :
    replaySegments storage redoLsn (List.range' start (count + 1)) progress =
      ⟨(start + count) * recoverySegmentSize + (segmentAt segments count).flatten.length,
        progress.recordsReplayed +
          replayed redoLsn (segmentLsns recoverySegmentSize start segments)⟩ := by
  induction count generalizing start segments progress with
  | zero =>
      have hnonempty : segmentAt segments 0 ≠ [] := by
        intro hnil
        have hzero := hfull 0 (Nat.succ_pos _)
        rw [hnil, padding, if_pos rfl] at hzero
        omega
      have htail : segments.tail = [] := by
        apply List.length_eq_zero_iff.mp
        rw [List.length_tail]
        omega
      rw [replaySegments_succ hholds, replayed_segmentLsns, htail,
        replayPage_segmentImage (hencoded 0), replayPage_short (hfull 0 (Nat.succ_pos _)),
        if_neg hnonempty]
      rfl
  | succ count ih =>
      have htail : segments.tail.length ≤ count + 1 := by
        rw [List.length_tail]
        omega
      have hencoded' : ∀ i, ∀ data ∈ segmentAt segments.tail i, Encoded data := by
        intro i
        rw [segmentAt_tail]
        exact hencoded (i + 1)
      have hfull' : ∀ i < count + 1,
          padding recoverySegmentSize (segmentAt segments.tail i) < 12 := by
        intro i hi
        rw [segmentAt_tail]
        exact hfull (i + 1) (Nat.succ_lt_succ hi)
      rw [replaySegments_succ hholds, replayed_segmentLsns,
        replayPage_segmentImage (hencoded 0), replayPage_short (hfull 0 (Nat.succ_pos _)),
        ih hholds.tail htail hencoded' hfull', segmentAt_tail, Nat.add_assoc start,
        Nat.add_comm 1, Nat.add_assoc]

omit [Bincode] [BincodeRecords] [LawfulBincodeRecords] in
theorem replayed_eq_zero {lsns : List Nat} (h : ∀ lsn ∈ lsns, lsn < redoLsn) :
    replayed redoLsn lsns = 0 := by
  rw [replayed, List.length_eq_zero_iff, List.filter_eq_nil_iff]
  intro lsn hlsn
  rw [decide_eq_true_eq]
  exact Nat.not_le_of_lt (h lsn hlsn)

omit [Bincode] [BincodeRecords] [LawfulBincodeRecords] in
/-- The segments before the one that replay starts in have nothing to replay. -/
theorem replayed_drop {segmentSize : Nat}
    (hsegments : ∀ i, ∀ data ∈ segmentAt segments i, data ≠ [])
    (hle : ∀ i, (segmentAt segments i).flatten.length ≤ segmentSize)
    (hredo : (start + count) * segmentSize ≤ redoLsn) :
    replayed redoLsn (segmentLsns segmentSize start segments) =
      replayed redoLsn (segmentLsns segmentSize (start + count) (segments.drop count)) := by
  induction count generalizing start segments with
  | zero => rfl
  | succ count ih =>
      have hfirst : replayed redoLsn
          (positions (start * segmentSize) (segmentAt segments 0)) = 0 := by
        apply replayed_eq_zero
        intro lsn hlsn
        obtain ⟨_, hlt⟩ := mem_positions (hsegments 0) hlsn
        calc
          lsn < start * segmentSize + (segmentAt segments 0).flatten.length := hlt
          _ ≤ start * segmentSize + segmentSize := Nat.add_le_add_left (hle 0) _
          _ = (start + 1) * segmentSize := by rw [Nat.add_mul, Nat.one_mul]
          _ ≤ (start + (count + 1)) * segmentSize := Nat.mul_le_mul_right _ (by omega)
          _ ≤ redoLsn := hredo
      have hnext : start + (count + 1) = start + 1 + count := by omega
      rw [hnext] at hredo ⊢
      rw [replayed_segmentLsns, hfirst, Nat.zero_add, ← List.drop_tail]
      apply ih
      · intro i
        rw [segmentAt_tail]
        exact hsegments (i + 1)
      · intro i
        rw [segmentAt_tail]
        exact hle (i + 1)
      · exact hredo

end Segments

section Recover

variable [Bincode] [BincodeRecords] [LawfulBincodeRecords]

/-- Segments of the size that recovery assumes. -/
def walSegmentSize : UInt32 := 16 * 1024 * 1024

omit [Bincode] [BincodeRecords] [LawfulBincodeRecords] in
theorem walSegmentSize_toNat : walSegmentSize.toNat = recoverySegmentSize := by decide

omit [Bincode] [BincodeRecords] [LawfulBincodeRecords] in
theorem padding_lt_iff {datas : List Bytes} :
    padding recoverySegmentSize datas < 12 ↔ recoverySegmentSize < datas.flatten.length + 12 := by
  unfold padding recoverySegmentSize
  split
  · rename_i hnil
    rw [hnil, List.flatten_nil, List.length_nil]
    omega
  · omega

/-- Ten segments that records fill up to less than the twelve bytes that decode
as a record. -/
def Filled (packing : Packing) : Prop :=
  ∀ segment < 10,
    recoverySegmentSize < (segmentAt packing.segments segment).flatten.length + 12

omit [LawfulBincodeRecords] in
theorem recover_eq {control : ControlFile} (h : control.redoLsn ≤ 10 * recoverySegmentSize)
    {σ : Type} [StorageTrait σ] (storage : σ) :
    ∃ result control', recover control storage = some (result, control') ∧
      result.recordsReplayed = (replaySegments storage control.redoLsn
        (List.range' (control.redoLsn / recoverySegmentSize) 10)
        ⟨control.redoLsn, 0⟩).recordsReplayed ∧
      result.replayedLsn = (replaySegments storage control.redoLsn
        (List.range' (control.redoLsn / recoverySegmentSize) 10)
        ⟨control.redoLsn, 0⟩).replayedLsn := by
  have hstart : control.redoLsn / recoverySegmentSize ≤ 10 :=
    Nat.div_le_of_le_mul (by rwa [Nat.mul_comm])
  unfold recover
  rw [Nat.mod_eq_of_lt (by omega), if_pos (by omega)]
  exact ⟨_, _, rfl, rfl, rfl⟩

/-- A log whose segments hold the packed records at the LSNs. -/
structure Written (wal : WAL) (lsns : List Nat) (packing : Packing) : Prop where
  lsns_eq : lsns = segmentLsns recoverySegmentSize 0 packing.segments
  currentLsn_eq : wal.currentLsn =
    packing.front.length * recoverySegmentSize + packing.last.flatten.length
  last_pos : 0 < packing.last.flatten.length
  segment_le : ∀ i, (segmentAt packing.segments i).flatten.length ≤ recoverySegmentSize
  encoded : ∀ i, ∀ data ∈ segmentAt packing.segments i, Encoded data
  readPage_eq : ∀ segment < 2 ^ 31, readPage wal.storage ⟨UInt32.ofNat (segment + 1)⟩ =
    .ok (segmentImage recoverySegmentSize (segmentAt packing.segments segment))

theorem Encoded.ne_nil {data : Bytes} (h : Encoded data) : data ≠ [] :=
  serializeRecord_ne_nil h.choose_spec.1

theorem appendAll_written {records : List WALRecord} {datas : List Bytes} {lsns : List Nat}
    {wal : WAL} (hrecords : records ≠ [])
    (hdatas : List.Forall₂ (fun record data => serializeRecord record = .ok data) records datas)
    (happend : appendAll records (WAL.new walSegmentSize) = .ok lsns wal)
    (hspan : wal.currentLsn ≤ 10 * recoverySegmentSize) :
    Written wal lsns (packed recoverySegmentSize datas) := by
  have hnew : (WAL.new walSegmentSize).segmentSize.toNat = recoverySegmentSize :=
    walSegmentSize_toNat
  obtain ⟨hsize, hlens, hlaid, hlsns⟩ :=
    appendAll_laid (laid_new walSegmentSize) (by decide) hdatas happend (by rw [hnew]; omega)
  rw [hnew] at hlaid hlsns
  obtain ⟨hcurrent, hle, hread⟩ := hlaid
  rw [hsize, hnew] at hcurrent hle hread
  have hencoded : ∀ data ∈ datas, Encoded data := by
    intro data hdata
    obtain ⟨i, hi, rfl⟩ := List.getElem_of_mem hdata
    have hi' : i < records.length := by rwa [hdatas.length_eq]
    exact ⟨records[i], hdatas.get hi' hi, hlens _ hdata⟩
  have hdatasNe : datas ≠ [] := by
    rintro rfl
    cases hdatas
    exact hrecords rfl
  refine ⟨hlsns.symm, hcurrent, ?_, hle, ?_, hread⟩
  · exact packed_last_pos hdatasNe fun data hdata => (hencoded data hdata).ne_nil
  · intro i data hdata
    exact hencoded data (mem_packed hdata)

namespace Written

variable {wal : WAL} {lsns : List Nat} {packing : Packing} {redoLsn : Nat}

theorem ne_nil (h : Written wal lsns packing) :
    ∀ i, ∀ data ∈ segmentAt packing.segments i, data ≠ [] :=
  fun i data hdata => (h.encoded i data hdata).ne_nil

omit [BincodeRecords] [LawfulBincodeRecords] in
theorem length_le (h : Written wal lsns packing)
    (hspan : wal.currentLsn ≤ 10 * recoverySegmentSize) : packing.front.length ≤ 9 := by
  have hlt : packing.front.length * recoverySegmentSize < 10 * recoverySegmentSize := by
    have hcurrent := h.currentLsn_eq
    have hpos := h.last_pos
    omega
  exact Nat.le_of_lt_succ (Nat.lt_of_mul_lt_mul_right hlt)

theorem redo_le (h : Written wal lsns packing)
    (hspan : wal.currentLsn ≤ 10 * recoverySegmentSize)
    (hredo : redoLsn ∈ lsns ∨ redoLsn = wal.currentLsn) :
    redoLsn ≤ 10 * recoverySegmentSize := by
  rcases hredo with hmem | hend
  · rw [h.lsns_eq] at hmem
    obtain ⟨i, hge, hlt⟩ := mem_segmentLsns h.ne_nil hmem
    rw [Nat.zero_add] at hge hlt
    have hi : i < packing.segments.length := by
      by_contra hout
      rw [segmentAt_of_length_le (Nat.le_of_not_lt hout), List.flatten_nil,
        List.length_nil] at hlt
      omega
    have hfront := h.length_le hspan
    rw [Packing.segments, List.length_append, List.length_singleton] at hi
    calc
      redoLsn ≤ i * recoverySegmentSize + recoverySegmentSize :=
        Nat.le_trans (Nat.le_of_lt hlt) (Nat.add_le_add_left (h.segment_le i) _)
      _ = (i + 1) * recoverySegmentSize := by rw [Nat.add_mul, Nat.one_mul]
      _ ≤ 10 * recoverySegmentSize := Nat.mul_le_mul_right _ (by omega)
  · rwa [hend]

/-- A redo LSN in the first segment is not past its records. -/
theorem redo_first (h : Written wal lsns packing)
    (hredo : redoLsn ∈ lsns ∨ redoLsn = wal.currentLsn) (hfirst : redoLsn < recoverySegmentSize) :
    redoLsn ≤ (segmentAt packing.segments 0).flatten.length := by
  have hzero : ∀ i, i * recoverySegmentSize ≤ redoLsn → i = 0 := by
    intro i hle
    by_contra hi
    have hmul := Nat.le_mul_of_pos_left recoverySegmentSize (Nat.pos_of_ne_zero hi)
    omega
  rcases hredo with hmem | hend
  · rw [h.lsns_eq] at hmem
    obtain ⟨i, hge, hlt⟩ := mem_segmentLsns h.ne_nil hmem
    rw [Nat.zero_add] at hge hlt
    rw [hzero i hge] at hlt
    omega
  · rw [h.currentLsn_eq] at hend
    have hfront := hzero packing.front.length (by omega)
    have hsegment := segmentAt_length packing.front packing.last []
    rw [hfront] at hsegment hend
    rw [Packing.segments, hsegment]
    omega

omit [BincodeRecords] [LawfulBincodeRecords] in
theorem holds (h : Written wal lsns packing) {start : Nat} (hstart : start ≤ 10) :
    Holds wal.storage start 10 (packing.segments.drop start) := by
  intro i hi
  rw [segmentAt_drop]
  exact h.readPage_eq (start + i) (by omega)

omit [BincodeRecords] [LawfulBincodeRecords] in
theorem encoded_drop (h : Written wal lsns packing) (start : Nat) :
    ∀ i, ∀ data ∈ segmentAt (packing.segments.drop start) i, Encoded data := by
  intro i
  rw [segmentAt_drop]
  exact h.encoded (start + i)

/-- A filled log is replayed as it was written. -/
theorem replaySegments_filled (h : Written wal lsns packing)
    (hspan : wal.currentLsn ≤ 10 * recoverySegmentSize) (hfilled : Filled packing)
    (progress : Progress) :
    replaySegments wal.storage redoLsn (List.range' 0 10) progress =
      ⟨wal.currentLsn, progress.recordsReplayed + replayed redoLsn lsns⟩ := by
  have hfront := h.length_le hspan
  have hnine : packing.front.length = 9 := by
    by_contra hne
    have hlast := hfilled 9 (by omega)
    have hout : packing.segments.length ≤ 9 := by
      rw [Packing.segments, List.length_append, List.length_singleton]
      omega
    rw [segmentAt_of_length_le hout, List.flatten_nil, List.length_nil] at hlast
    exact absurd hlast (by decide)
  have hlength : packing.segments.length ≤ 10 := by
    rw [Packing.segments, List.length_append, List.length_singleton, hnine]
  have hlast := segmentAt_length packing.front packing.last []
  rw [hnine] at hlast
  rw [replaySegments_full (h.holds (Nat.zero_le _)) hlength (h.encoded_drop 0)
    (fun i hi => padding_lt_iff.mpr (hfilled i hi)), List.drop_zero, h.lsns_eq, h.currentLsn_eq,
    hnine, Packing.segments, hlast]

/-- Otherwise zeros are replayed as records. -/
theorem lt_replaySegments_of_not_filled (h : Written wal lsns packing)
    (hspan : wal.currentLsn ≤ 10 * recoverySegmentSize)
    (hredo : redoLsn ∈ lsns ∨ redoLsn = wal.currentLsn)
    (hnot : ¬ (redoLsn < recoverySegmentSize ∧ Filled packing)) (progress : Progress) :
    progress.recordsReplayed + replayed redoLsn lsns <
      (replaySegments wal.storage redoLsn (List.range' (redoLsn / recoverySegmentSize) 10)
        progress).recordsReplayed := by
  have hredoLe := h.redo_le hspan hredo
  have hfront := h.length_le hspan
  have hlength : packing.segments.length = packing.front.length + 1 := by
    rw [Packing.segments, List.length_append, List.length_singleton]
  have hstart : redoLsn / recoverySegmentSize ≤ 10 :=
    Nat.div_le_of_le_mul (by rwa [Nat.mul_comm])
  have hsplit := Nat.div_add_mod redoLsn recoverySegmentSize
  have hmod := Nat.mod_lt redoLsn (show 0 < recoverySegmentSize by decide)
  generalize redoLsn / recoverySegmentSize = start at *
  have hreplayed : replayed redoLsn lsns =
      replayed redoLsn (segmentLsns recoverySegmentSize start (packing.segments.drop start)) := by
    have hbelow : (0 + start) * recoverySegmentSize ≤ redoLsn := by
      rw [Nat.zero_add, Nat.mul_comm]
      omega
    rw [h.lsns_eq, replayed_drop h.ne_nil h.segment_le hbelow, Nat.zero_add]
  obtain ⟨i, hi, hpadding, hbefore⟩ : ∃ i < 10,
      12 ≤ padding recoverySegmentSize (segmentAt (packing.segments.drop start) i) ∧
        redoLsn ≤ (start + i) * recoverySegmentSize +
          (segmentAt (packing.segments.drop start) i).flatten.length := by
    by_cases hfirst : redoLsn < recoverySegmentSize
    · have hzero : start = 0 := by
        by_contra hne
        have hmul := Nat.le_mul_of_pos_right recoverySegmentSize (Nat.pos_of_ne_zero hne)
        omega
      subst hzero
      obtain ⟨i, hi, hgap⟩ : ∃ i < 10, ¬ recoverySegmentSize <
          (segmentAt packing.segments i).flatten.length + 12 := by
        by_contra hall
        push Not at hall
        exact hnot ⟨hfirst, hall⟩
      refine ⟨i, hi, ?_, ?_⟩
      · exact Nat.le_of_not_lt fun hlt => hgap (padding_lt_iff.mp hlt)
      · rw [Nat.zero_add, List.drop_zero]
        cases i with
        | zero =>
            rw [Nat.zero_mul, Nat.zero_add]
            exact h.redo_first hredo hfirst
        | succ i =>
            rw [Nat.add_mul, Nat.one_mul]
            omega
    · have hpos : start ≠ 0 := by
        rintro rfl
        omega
      have hempty : segmentAt (packing.segments.drop start) 9 = [] := by
        rw [segmentAt_drop]
        exact segmentAt_of_length_le (by omega)
      refine ⟨9, by omega, ?_, ?_⟩
      · rw [hempty, padding, if_pos rfl]
        omega
      · rw [Nat.add_mul, Nat.mul_comm start]
        omega
  rw [hreplayed]
  exact lt_replaySegments (h.holds hstart) (by rw [List.length_drop]; omega)
    (h.encoded_drop start) hi hpadding hbefore progress

end Written

/-- After appends to a fresh log, what `recover` reports is the log's contents
if and only if the replay starts in the first of ten filled segments. -/
theorem recover_exact_iff {records : List WALRecord} {datas : List Bytes} {lsns : List Nat}
    {wal : WAL} {control : ControlFile} (hrecords : records ≠ [])
    (hdatas : List.Forall₂ (fun record data => serializeRecord record = .ok data) records datas)
    (happend : appendAll records (WAL.new walSegmentSize) = .ok lsns wal)
    (hspan : wal.currentLsn ≤ 10 * recoverySegmentSize)
    (hredo : control.redoLsn ∈ lsns ∨ control.redoLsn = wal.currentLsn) :
    ∃ result control', recover control wal.storage = some (result, control') ∧
      (result.recordsReplayed = replayed control.redoLsn lsns ∧
        result.replayedLsn = wal.currentLsn ↔
          control.redoLsn < recoverySegmentSize ∧ Filled (packed recoverySegmentSize datas)) := by
  have hwritten := appendAll_written hrecords hdatas happend hspan
  obtain ⟨result, control', hrecover, hcount, hlsn⟩ :=
    recover_eq (hwritten.redo_le hspan hredo) wal.storage
  refine ⟨result, control', hrecover, ?_, ?_⟩
  · rintro ⟨hexact, _⟩
    by_contra hnot
    have hlt := hwritten.lt_replaySegments_of_not_filled hspan hredo hnot ⟨control.redoLsn, 0⟩
    rw [Nat.zero_add, ← hcount, hexact] at hlt
    exact Nat.lt_irrefl _ hlt
  · rintro ⟨hfirst, hfilled⟩
    rw [hcount, hlsn, Nat.div_eq_of_lt hfirst, hwritten.replaySegments_filled hspan hfilled]
    exact ⟨Nat.zero_add _, rfl⟩

end Recover

section FullSegments

/-- A record of `size` bytes. -/
def recordOfSize (size : Nat) : WALRecord :=
  .insert ⟨0⟩ ⟨0⟩
    { slots := []
      data := List.replicate (size - 60) 0
      xmin := 0
      xmax := 0
      cmin := 0
      cmax := 0
      xvac := 0 }

theorem recordOfSize_length {size : Nat} (h : 60 ≤ size) :
    (encodeRecord (recordOfSize size)).length = size := by
  rw [recordOfSize, encodeRecord, List.length_append, encodeTuple_length]
  simp only [List.length_append, toLeBytes_length, List.length_replicate, List.length_nil]
  omega

theorem logEnd_full {segmentSize segment : Nat} {data : Bytes} (hdata : data.length = segmentSize)
    (count : Nat) :
    logEnd segmentSize (segment * segmentSize) (List.replicate count data) =
      (segment + count) * segmentSize := by
  induction count generalizing segment with
  | zero => rfl
  | succ count ih =>
      have hplace : placeAt segmentSize (segment * segmentSize) data.length =
          segment * segmentSize := by
        rw [placeAt, Nat.mul_mod_left, if_neg (by omega)]
      have hnext : segment * segmentSize + data.length = (segment + 1) * segmentSize := by
        rw [hdata, Nat.add_mul, Nat.one_mul]
      rw [List.replicate_succ, logEnd, hplace, hnext, ih]
      congr 1
      omega

theorem foldl_add_full {segmentSize : Nat} {data : Bytes} (hdata : data.length = segmentSize)
    (hpos : 0 < segmentSize) (front : List (List Bytes)) (count : Nat) :
    (List.replicate count data).foldl (Packing.add segmentSize) ⟨front, [data]⟩ =
      ⟨front ++ List.replicate count [data], [data]⟩ := by
  induction count generalizing front with
  | zero => rw [List.replicate_zero, List.replicate_zero, List.append_nil]; rfl
  | succ count ih =>
      have hadd : Packing.add segmentSize ⟨front, [data]⟩ data = ⟨front ++ [[data]], [data]⟩ := by
        rw [Packing.add, if_pos (by rw [List.flatten_singleton]; omega)]
      rw [List.replicate_succ, List.foldl_cons, hadd, ih, List.append_assoc, List.replicate_succ]
      rfl

theorem packed_full {segmentSize : Nat} {data : Bytes} (hdata : data.length = segmentSize)
    (hpos : 0 < segmentSize) (count : Nat) :
    (packed segmentSize (List.replicate (count + 1) data)).segments =
      List.replicate (count + 1) [data] := by
  have hadd : Packing.add segmentSize ⟨[], []⟩ data = ⟨[], [data]⟩ := by
    rw [Packing.add, if_neg (by rw [List.flatten_nil, List.length_nil]; omega)]
    rfl
  rw [packed, List.replicate_succ, List.foldl_cons, hadd, foldl_add_full hdata hpos,
    Packing.segments, List.nil_append, ← List.replicate_succ']

theorem recover_exact_iff_ten :
    ∃ lsns wal result control',
      appendAll (List.replicate 10 (recordOfSize recoverySegmentSize)) (WAL.new walSegmentSize) =
          .ok lsns wal ∧
        recover ⟨0, 0⟩ wal.storage = some (result, control') ∧
        result.recordsReplayed = replayed 0 lsns ∧ result.replayedLsn = wal.currentLsn := by
  have hser : serializeRecord (recordOfSize recoverySegmentSize) =
      .ok (encodeRecord (recordOfSize recoverySegmentSize)) := rfl
  have hlength := recordOfSize_length (show 60 ≤ recoverySegmentSize by decide)
  generalize recordOfSize recoverySegmentSize = record at *
  generalize encodeRecord record = data at *
  have hpos : 0 < recoverySegmentSize := by decide
  have hdatas : List.Forall₂ (fun record data => serializeRecord record = .ok data)
      (List.replicate 10 record) (List.replicate 10 data) := by
    rw [List.forall₂_iff_get]
    simp only [List.length_replicate, List.get_eq_getElem, List.getElem_replicate, hser,
      implies_true, and_self]
  have hend : logEnd recoverySegmentSize 0 (List.replicate 10 data) = 10 * recoverySegmentSize := by
    have hfull := @logEnd_full recoverySegmentSize 0 data hlength 10
    rwa [Nat.zero_mul, Nat.zero_add] at hfull
  have hnew : (WAL.new walSegmentSize).segmentSize.toNat = recoverySegmentSize :=
    walSegmentSize_toNat
  obtain ⟨lsns, wal, happend, _⟩ :=
    @appendAll_logged _ _ _ (List.replicate 10 record) (List.replicate 10 data)
      (WAL.new walSegmentSize) [] (by rw [hnew]; exact hpos) hdatas
      (by
        intro data' hmem
        rw [List.eq_of_mem_replicate hmem, hnew, hlength])
      (by
        rw [hnew]
        exact Nat.le_trans (Nat.le_of_eq hend) (Nat.mul_le_mul_right _ (by decide)))
      (by simp)
  have hspan : wal.currentLsn ≤ 10 * recoverySegmentSize := by
    rw [appendAll_currentLsn hdatas happend, hnew]
    exact Nat.le_of_eq hend
  have hpacked := packed_full hlength hpos 9
  have hwritten := appendAll_written (by simp) hdatas happend hspan
  have hzero : 0 ∈ lsns := by
    rw [hwritten.lsns_eq, hpacked]
    exact List.mem_cons.mpr (Or.inl (Nat.zero_mul _).symm)
  have hfilled : Filled (packed recoverySegmentSize (List.replicate 10 data)) := by
    intro segment hsegment
    rw [hpacked, segmentAt_eq_getElem (by rwa [List.length_replicate]), List.getElem_replicate,
      List.flatten_singleton, hlength]
    omega
  obtain ⟨result, control', hrecover, hexact⟩ :=
    @recover_exact_iff _ _ _ (List.replicate 10 record) (List.replicate 10 data) lsns wal ⟨0, 0⟩
      (by simp) hdatas happend hspan (Or.inl hzero)
  exact ⟨lsns, wal, result, control', happend, hrecover, hexact.mpr ⟨hpos, hfilled⟩⟩

end FullSegments

/-- One record: the zeros after it are counted too. -/
theorem recover_counts_padding :
    ∃ lsns wal result control', appendAll [.begin 1] (WAL.new walSegmentSize) = .ok lsns wal ∧
      0 ∈ lsns ∧ wal.currentLsn ≤ 10 * recoverySegmentSize ∧
      recover ⟨0, 0⟩ wal.storage = some (result, control') ∧
      replayed 0 lsns < result.recordsReplayed := by
  have hdatas : List.Forall₂ (fun record data => serializeRecord record = .ok data)
      [.begin 1] [encodeRecord (.begin 1)] := List.Forall₂.cons rfl List.Forall₂.nil
  have hnew : (WAL.new walSegmentSize).segmentSize.toNat = recoverySegmentSize :=
    walSegmentSize_toNat
  obtain ⟨lsns, wal, happend, _⟩ :=
    @appendAll_logged _ _ _ [.begin 1] [encodeRecord (.begin 1)] (WAL.new walSegmentSize) []
      (by decide) hdatas (by decide) (by decide) (by simp)
  have hspan : wal.currentLsn ≤ 10 * recoverySegmentSize := by
    rw [appendAll_currentLsn hdatas happend, hnew]
    decide
  have hwritten := appendAll_written (by simp) hdatas happend hspan
  have hzero : 0 ∈ lsns := by
    rw [hwritten.lsns_eq]
    decide
  have hnot : ¬ Filled (packed recoverySegmentSize [encodeRecord (.begin 1)]) := by
    intro hfilled
    exact absurd (hfilled 1 (by decide)) (by decide)
  obtain ⟨result, control', hrecover, hcount, _⟩ :=
    @recover_eq _ _ ⟨0, 0⟩ (Nat.zero_le _) _ _ wal.storage
  refine ⟨lsns, wal, result, control', happend, hzero, hspan, hrecover, ?_⟩
  have hlt := hwritten.lt_replaySegments_of_not_filled hspan (Or.inl hzero)
    (fun h => hnot h.2) ⟨0, 0⟩
  rw [hcount]
  rwa [Nat.zero_add] at hlt

end PostgressRs.Wal.Recovery
