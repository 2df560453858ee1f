import PostgressRs.Lib.Procedure
import PostgressRs.Storage.PageStore
import PostgressRs.Wal.LogRecord

/-!
The write-ahead log (`WAL` of `src/wal/mod.rs`), which keeps its segments in a
store of its own.  LSNs are `u64` and panic on overflow; the xid counter is an
atomic and wraps.
-/

namespace PostgressRs.Wal.WriteAheadLog

open PostgressRs.Lib.ByteBuffer
open PostgressRs.Lib.Procedure
open PostgressRs.Storage.PageStore
open PostgressRs.Types
open PostgressRs.Wal.LogRecord

structure WAL where
  storage : EphemeralStorage
  currentLsn : Nat
  flushedLsn : Nat
  currentXid : UInt64
  segmentSize : UInt32
  flushCount : UInt64

namespace WAL

def new (segmentSize : UInt32) : WAL where
  storage := EphemeralStorage.new
  currentLsn := 0
  flushedLsn := 0
  currentXid := 1
  segmentSize := segmentSize
  flushCount := 0

end WAL

def allocateXid : Proc WAL UInt64 := fun wal =>
  .ok wal.currentXid { wal with currentXid := wal.currentXid + 1 }

/-- `a + b` on `u64`. -/
def checkedAdd (a b : Nat) : Option Nat :=
  if a + b < 2 ^ 64 then some (a + b) else none

/-- `Vec::resize(len, 0)` of a shorter vector. -/
def growTo (len : Nat) (page : Bytes) : Bytes :=
  if page.length < len then page ++ List.replicate (len - page.length) 0 else page

/-- Where a record of `recordSize` bytes goes: it does not straddle a segment
boundary unless it is longer than a segment. -/
def recordStart (current recordSize segmentSize : Nat) : Option Nat :=
  if segmentSize < current % segmentSize + recordSize then
    checkedAdd current (segmentSize - current % segmentSize)
  else some current

/-- Writes a record into its segment. -/
def writeRecord (current : Nat) (data : Bytes) : Proc WAL Unit := do
  let wal ← read id
  let segmentSize := wal.segmentSize.toNat
  let segment ← orPanic (checkedAdd 1 (current / segmentSize))
  let pageId : PageId := ⟨UInt32.ofNat segment⟩
  let page ← ofExcept (readPage wal.storage pageId)
  let page ← orPanic (copyFromSlice (growTo segmentSize page) (current % segmentSize) data)
  let (result, storage) := writePage wal.storage pageId page
  modify fun wal => { wal with storage := storage }
  ofExcept result

def append [Bincode] (record : WALRecord) : Proc WAL Nat := do
  let data ← ofExcept (serializeRecord record)
  let wal ← read id
  let segmentSize := wal.segmentSize.toNat
  if segmentSize = 0 then
    -- remainder by zero
    orPanic none
  else
    let current ← orPanic (recordStart wal.currentLsn data.length segmentSize)
    let lsn ← orPanic (checkedAdd current data.length)
    modify fun wal => { wal with currentLsn := lsn }
    writeRecord current data
    pure current

def flush : Proc WAL Unit :=
  modify fun wal =>
    { wal with flushedLsn := wal.currentLsn, flushCount := wal.flushCount + 1 }

def getFlushedLsn : Proc WAL Nat := read WAL.flushedLsn

def ensureFlushed (lsn : Nat) : Proc WAL Unit := do
  let current ← read WAL.currentLsn
  let flushed ← getFlushedLsn
  if flushed < current ∧ flushed ≤ lsn then
    flush

section Xids

/-- The xid counter is the same. -/
def SameXid (wal wal' : WAL) : Prop := wal'.currentXid = wal.currentXid

instance : Std.Refl SameXid where
  refl _ := rfl

instance : IsTrans WAL SameXid where
  trans _ _ _ h h' := Eq.trans h' h

theorem keeps_writeRecord (current : Nat) (data : Bytes) :
    Keeps SameXid (writeRecord current data) := by
  refine keeps_bind (keeps_read _) fun wal => ?_
  refine keeps_bind (keeps_orPanic _) fun segment => ?_
  refine keeps_bind (keeps_ofExcept _) fun page => ?_
  refine keeps_bind (keeps_orPanic _) fun page' => ?_
  refine keeps_bind (keeps_modify fun _ => rfl) fun _ => ?_
  exact keeps_ofExcept _

theorem keeps_append [Bincode] (record : WALRecord) : Keeps SameXid (append record) := by
  refine keeps_bind (keeps_ofExcept _) fun data => ?_
  refine keeps_bind (keeps_read _) fun wal => ?_
  simp only
  split
  · exact keeps_orPanic none
  · refine keeps_bind (keeps_orPanic _) fun current => ?_
    refine keeps_bind (keeps_orPanic _) fun lsn => ?_
    refine keeps_bind (keeps_modify fun _ => rfl) fun _ => ?_
    exact keeps_bind (keeps_writeRecord current data) fun _ => keeps_pure _

end Xids

section Append

/-- Enough of the log's state for `count` more records of at most 8192 bytes:
segments can be addressed, no page is shorter than a disk page, and the LSN is
far from overflowing. -/
structure Ready (wal : WAL) (count : Nat) : Prop where
  segment_pos : 0 < wal.segmentSize.toNat
  page_length : ∀ p data, readPage wal.storage p = .ok data → 8192 ≤ data.length
  lsn_lt : wal.currentLsn + 16384 * count < 2 ^ 63

theorem ready_new {segmentSize : UInt32} (hpos : 0 < segmentSize.toNat) {count : Nat}
    (hcount : count < 2 ^ 32) : Ready (WAL.new segmentSize) count := by
  refine ⟨hpos, ?_, ?_⟩
  · intro p data hread
    rw [EphemeralStorage.readPage_eq] at hread
    cases hread
    change 8192 ≤ zeroPage.length
    rw [zeroPage_length]
  · change 0 + 16384 * count < 2 ^ 63
    omega

theorem growTo_length (len : Nat) (page : Bytes) :
    (growTo len page).length = max len page.length := by
  unfold growTo
  split
  · simp only [List.length_append, List.length_replicate]
    omega
  · omega

/-- A record of at most 8192 bytes is placed inside the segment's page. -/
theorem recordStart_spec {current recordSize segmentSize : Nat} (hpos : 0 < segmentSize)
    (hsize : recordSize ≤ 8192) (hcurrent : current + 16384 < 2 ^ 63) :
    ∃ start, recordStart current recordSize segmentSize = some start ∧
      start ≤ current + 8192 ∧
      start % segmentSize + recordSize ≤ max segmentSize 8192 := by
  have hmod := Nat.mod_lt current hpos
  unfold recordStart
  split
  · rename_i hstraddles
    refine ⟨current + (segmentSize - current % segmentSize), ?_, ?_, ?_⟩
    · rw [checkedAdd, if_pos (by omega)]
    · omega
    · have hdvd : (current + (segmentSize - current % segmentSize)) % segmentSize = 0 := by
        have hsplit := Nat.div_add_mod current segmentSize
        have heq : current + (segmentSize - current % segmentSize) =
            segmentSize * (current / segmentSize + 1) := by
          rw [Nat.mul_add, Nat.mul_one]
          omega
        rw [heq, Nat.mul_mod_right]
      rw [hdvd]
      omega
  · exact ⟨current, rfl, by omega, by omega⟩

theorem append_ok [Bincode] {wal : WAL} {count : Nat} {record : WALRecord} {data : Bytes}
    (h : Ready wal (count + 1)) (hdata : serializeRecord record = .ok data)
    (hsize : data.length ≤ 8192) :
    ∃ lsn wal', append record wal = .ok lsn wal' ∧ Ready wal' count ∧
      wal'.currentXid = wal.currentXid := by
  have hlsn : wal.currentLsn + (16384 * count + 16384) < 2 ^ 63 := by
    rw [← Nat.mul_add_one]
    exact h.lsn_lt
  have hroom : wal.currentLsn + 16384 < 2 ^ 63 :=
    Nat.lt_of_le_of_lt (Nat.add_le_add_left (Nat.le_add_left _ _) _) hlsn
  obtain ⟨start, hstart, hle, hfits⟩ := recordStart_spec h.segment_pos hsize hroom
  have hadd : checkedAdd start data.length = some (start + data.length) := by
    rw [checkedAdd, if_pos (by omega)]
  have hseg : start / wal.segmentSize.toNat ≤ start := Nat.div_le_self _ _
  have hsegment : checkedAdd 1 (start / wal.segmentSize.toNat) =
      some (1 + start / wal.segmentSize.toNat) := by
    rw [checkedAdd, if_pos (by omega)]
  set pageId : PageId := ⟨UInt32.ofNat (1 + start / wal.segmentSize.toNat)⟩ with hpageId
  obtain ⟨page, hread⟩ : ∃ page, readPage wal.storage pageId = .ok page :=
    ⟨_, EphemeralStorage.readPage_eq wal.storage pageId⟩
  have hpage := h.page_length pageId page hread
  obtain ⟨page', hcopy⟩ : ∃ page', copyFromSlice (growTo wal.segmentSize.toNat page)
      (start % wal.segmentSize.toNat) data = some page' := by
    refine ⟨_, if_pos ?_⟩
    rw [growTo_length]
    omega
  have hlen : 8192 ≤ page'.length := by
    rw [copyFromSlice_length hcopy, growTo_length]
    omega
  refine ⟨start, { wal with currentLsn := start + data.length, storage :=
    (writePage wal.storage pageId page').2 }, ?_, ⟨h.segment_pos, ?_, ?_⟩, rfl⟩
  · simp only [append, writeRecord, bind_apply, hdata, ofExcept_ok, read_apply, id_eq,
      if_neg (Nat.pos_iff_ne_zero.mp h.segment_pos), hstart, orPanic_some, hadd, modify_apply,
      hsegment, ← hpageId, hread, hcopy, EphemeralStorage.writePage_eq, pure_apply]
  · intro p data' hdata'
    by_cases hp : p = pageId
    · subst hp
      rw [LawfulStorage.read_write_self] at hdata'
      cases hdata'
      exact hlen
    · rw [LawfulStorage.read_write_of_ne _ _ _ _ hp] at hdata'
      exact h.page_length p data' hdata'
  · change start + data.length + 16384 * count < 2 ^ 63
    omega

end Append

end PostgressRs.Wal.WriteAheadLog
