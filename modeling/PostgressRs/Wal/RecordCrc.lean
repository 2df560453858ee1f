import PostgressRs.Lib.ByteBuffer
import PostgressRs.Lib.ShiftRegister

/-!
Record headers and their checksum (`XLogRecord` and `compute_crc` of
`src/wal/mod.rs`).
-/

namespace PostgressRs.Wal.RecordCrc

open PostgressRs.Lib.ByteBuffer
open PostgressRs.Lib.ShiftRegister

structure XLogRecord where
  xlTotLen : UInt32
  xlXid : UInt32
  xlInfo : UInt32
  xlRmid : UInt8
  xlPad : UInt8 × UInt8 × UInt8
  xlCrc : UInt32
deriving DecidableEq

/-- One pass of the inner loop. -/
def crcBit (crc : UInt32) : UInt32 :=
  if crc &&& 1 ≠ 0 then crc >>> 1 ^^^ 0xEDB88320 else crc >>> 1

/-- One pass of the outer loop. -/
def crcByte (crc : UInt32) (byte : UInt8) : UInt32 := crcBit^[8] (crc ^^^ byte.toUInt32)

def computeCrc (data : Bytes) : UInt32 := data.foldl crcByte 0xFFFFFFFF ^^^ 0xFFFFFFFF

namespace XLogRecord

/-- The cast of the length drops its high bits, the addition panics on overflow. -/
def new (xlXid xlInfo : UInt32) (xlRmid : UInt8) (data : Bytes) : Option XLogRecord :=
  let len := UInt32.ofNat data.length
  if 24 + len.toNat ≤ 0xFFFFFFFF then
    some
      { xlTotLen := 24 + len
        xlXid := xlXid
        xlInfo := xlInfo
        xlRmid := xlRmid
        xlPad := (0, 0, 0)
        xlCrc := computeCrc data }
  else none

def serialize (record : XLogRecord) : Bytes :=
  toLeBytes 4 record.xlTotLen.toNat ++ toLeBytes 4 record.xlXid.toNat ++
    toLeBytes 4 record.xlInfo.toNat ++ [record.xlRmid] ++
    [record.xlPad.1, record.xlPad.2.1, record.xlPad.2.2] ++ toLeBytes 4 record.xlCrc.toNat ++
    List.replicate 4 0

def deserialize (data : Bytes) : Option XLogRecord := do
  let xlTotLen ← slice data 0 4
  let xlXid ← slice data 4 8
  let xlInfo ← slice data 8 12
  let xlRmid ← data[12]?
  let pad0 ← data[13]?
  let pad1 ← data[14]?
  let pad2 ← data[15]?
  let xlCrc ← slice data 16 20
  pure
    { xlTotLen := UInt32.ofNat (fromLeBytes xlTotLen)
      xlXid := UInt32.ofNat (fromLeBytes xlXid)
      xlInfo := UInt32.ofNat (fromLeBytes xlInfo)
      xlRmid := xlRmid
      xlPad := (pad0, pad1, pad2)
      xlCrc := UInt32.ofNat (fromLeBytes xlCrc) }

def verifyCrc (record : XLogRecord) (data : Bytes) : Bool := record.xlCrc = computeCrc data

end XLogRecord

/-- A header is read back from the 24 bytes it is written as. -/
theorem deserialize_serialize (record : XLogRecord) :
    XLogRecord.deserialize record.serialize = some record := by
  have hword : ∀ x : UInt32, UInt32.ofNat (fromLeBytes (toLeBytes 4 x.toNat)) = x := by
    intro x
    rw [fromLeBytes_toLeBytes _ _ x.toNat_lt, UInt32.ofNat_toNat]
  have hcrc : slice (record.xlRmid :: record.xlPad.1 :: record.xlPad.2.1 :: record.xlPad.2.2 ::
      (toLeBytes 4 record.xlCrc.toNat ++ [0, 0, 0, 0])) 4 8 =
        some (toLeBytes 4 record.xlCrc.toNat) :=
    slice_append [_, _, _, _] (toLeBytes 4 record.xlCrc.toNat) [0, 0, 0, 0] 4 8 rfl (by simp)
  simp (disch := simp) [XLogRecord.deserialize, XLogRecord.serialize, slice_append_right,
    slice_prefix, hword, hcrc]

/-- The generator of the checksum. -/
def polynomial : BitVec 32 := 0xEDB88320#32

theorem polynomial_msb : polynomial.msb = true := by decide

theorem and_one_ne_zero_iff (crc : UInt32) : crc &&& 1 ≠ 0 ↔ crc.toBitVec.getLsbD 0 = true := by
  have hbits : (crc &&& 1).toBitVec =
      BitVec.setWidth 32 (BitVec.ofBool (crc.toBitVec.getLsbD 0)) := by
    rw [UInt32.toBitVec_and]
    exact BitVec.and_one_eq_setWidth_ofBool_getLsbD
  rw [← UInt32.toBitVec_inj.ne, hbits]
  cases crc.toBitVec.getLsbD 0 <;> decide

theorem toBitVec_crcBit (crc : UInt32) :
    (crcBit crc).toBitVec = clock polynomial crc.toBitVec := by
  unfold crcBit clock
  by_cases hlow : crc.toBitVec.getLsbD 0 = true
  · rw [if_pos ((and_one_ne_zero_iff crc).mpr hlow), if_pos hlow]
    rfl
  · rw [if_neg (mt (and_one_ne_zero_iff crc).mp hlow), if_neg hlow]
    rfl

theorem toBitVec_crcByte (crc : UInt32) (byte : UInt8) :
    (crcByte crc byte).toBitVec = absorb polynomial crc.toBitVec byte.toBitVec := by
  have hiterate : Function.Semiconj UInt32.toBitVec crcBit (clock polynomial) := toBitVec_crcBit
  exact (hiterate.iterate_right 8).eq (crc ^^^ byte.toUInt32)

theorem toBitVec_foldl_crcByte (data : Bytes) (crc : UInt32) :
    (data.foldl crcByte crc).toBitVec =
      (data.map UInt8.toBitVec).foldl (absorb polynomial) crc.toBitVec := by
  induction data generalizing crc with
  | nil => rfl
  | cons byte data ih => rw [List.foldl_cons, ih, toBitVec_crcByte, List.map_cons, List.foldl_cons]

theorem computeCrc_ne {window window' : Bytes} (hlen : window.length = window'.length)
    (hfit : window.length ≤ 4) (hne : window ≠ window') (before after : Bytes) :
    computeCrc (before ++ (window ++ after)) ≠ computeCrc (before ++ (window' ++ after)) := by
  intro h
  have hfold := congrArg UInt32.toBitVec ((UInt32.xor_left_inj _).mp h)
  simp only [toBitVec_foldl_crcByte, List.map_append] at hfold
  refine foldl_absorb_ne polynomial polynomial_msb (by simpa using hlen) ?_ ?_ _ _ _ hfold
  · rw [List.length_map]
    omega
  · exact mt (List.map_inj_right fun _ _ => UInt8.toBitVec_inj.mp).mp hne

/-- The parts of two byte strings around a window outside which they agree. -/
theorem splits_of_agree {d d' : Bytes} {start : Nat}
    (hagree : ∀ i, i < start ∨ start + 4 ≤ i → d[i]? = d'[i]?) :
    d.take start = d'.take start ∧ d.drop (start + 4) = d'.drop (start + 4) := by
  constructor
  · apply List.ext_getElem?
    intro i
    rw [List.getElem?_take, List.getElem?_take]
    split
    · exact hagree i (.inl ‹_›)
    · rfl
  · apply List.ext_getElem?
    intro i
    rw [List.getElem?_drop, List.getElem?_drop]
    exact hagree _ (.inr (Nat.le_add_right _ i))

theorem eq_take_window_drop (d : Bytes) (start : Nat) :
    d = d.take start ++ ((d.drop start).take 4 ++ d.drop (start + 4)) := by
  rw [← List.drop_drop, List.take_append_drop, List.take_append_drop]

/-- The checksum tells apart any two byte strings of one length that differ
only within four consecutive bytes, so a record rejects such a change of its
data. -/
theorem verifyCrc_rejects_burst {d d' : Bytes} {start : Nat} (hlen : d.length = d'.length)
    (hagree : ∀ i, i < start ∨ start + 4 ≤ i → d[i]? = d'[i]?) (hne : d ≠ d') :
    computeCrc d ≠ computeCrc d' ∧
      ∀ xlXid xlInfo xlRmid record, XLogRecord.new xlXid xlInfo xlRmid d = some record →
        record.verifyCrc d = true ∧ record.verifyCrc d' = false := by
  have hcrc : computeCrc d ≠ computeCrc d' := by
    obtain ⟨hbefore, hafter⟩ := splits_of_agree hagree
    have hd := eq_take_window_drop d start
    have hd' := eq_take_window_drop d' start
    rw [← hbefore, ← hafter] at hd'
    have hwindow : (d.drop start).take 4 ≠ (d'.drop start).take 4 := by
      intro h
      exact hne (by rw [hd, h, ← hd'])
    rw [hd, hd']
    refine computeCrc_ne ?_ (List.length_take_le _ _) hwindow _ _
    rw [List.length_take, List.length_take, List.length_drop, List.length_drop, hlen]
  refine ⟨hcrc, ?_⟩
  intro xlXid xlInfo xlRmid record hnew
  rw [XLogRecord.new, Option.ite_none_right_eq_some] at hnew
  obtain ⟨-, hrecord⟩ := hnew
  cases hrecord
  simp [XLogRecord.verifyCrc, hcrc]

/-- A record of six bytes. -/
def sampleRecord : XLogRecord where
  xlTotLen := 30
  xlXid := 7
  xlInfo := 0
  xlRmid := 1
  xlPad := (0, 0, 0)
  xlCrc := computeCrc [1, 2, 3, 4, 5, 6]

/-- Two of its bytes changed. -/
theorem sampleRecord_rejects_two_bytes :
    computeCrc [1, 2, 3, 4, 5, 6] ≠ computeCrc [1, 2, 0, 4, 0, 6] ∧
      sampleRecord.verifyCrc [1, 2, 0, 4, 0, 6] = false := by
  have hagree : ∀ i, i < 1 ∨ 1 + 4 ≤ i →
      ([1, 2, 3, 4, 5, 6] : Bytes)[i]? = ([1, 2, 0, 4, 0, 6] : Bytes)[i]? := by
    rintro i (hi | hi)
    · obtain rfl : i = 0 := by omega
      rfl
    · obtain ⟨j, rfl⟩ := Nat.exists_eq_add_of_le' hi
      cases j with
      | zero => rfl
      | succ j => rfl
  have hlen : ([1, 2, 3, 4, 5, 6] : Bytes).length = ([1, 2, 0, 4, 0, 6] : Bytes).length := rfl
  obtain ⟨hcrc, hreject⟩ := verifyCrc_rejects_burst hlen hagree (by decide)
  exact ⟨hcrc, (hreject 7 0 1 sampleRecord rfl).2⟩

end PostgressRs.Wal.RecordCrc
