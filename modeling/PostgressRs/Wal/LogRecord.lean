import PostgressRs.Types

/-!
WAL records (`src/wal/mod.rs`) and the `bincode` calls of the repository.
`bincode` is a dependency: its functions are parameters, and what the code
relies on is stated in `LawfulBincode`.
-/

namespace PostgressRs.Wal.LogRecord

open PostgressRs.Lib.ByteBuffer
open PostgressRs.Types

structure CheckpointRecord where
  nextXid : UInt32
  nextOid : UInt32
  nextMultixact : UInt32
  oldestXid : UInt32
  oldestMultixact : UInt32
  oldestCommitTsXid : UInt32
  newCommitTsXid : UInt32
  checkpointLsn : UInt64
  redoLsn : UInt64
  timelineId : UInt32
deriving DecidableEq

inductive WALRecord where
  | begin (xid : UInt64)
  | insert (relOid : Oid) (pageId : PageId) (tuple : Tuple)
  | update (relOid : Oid) (pageId : PageId) (oldTuple newTuple : Tuple)
  | delete (relOid : Oid) (pageId : PageId) (tuple : Tuple)
  | commit (xid : UInt64)
  | abort (xid : UInt64)
  | checkpoint (record : CheckpointRecord)
deriving DecidableEq

/-- `bincode::serialize` and `bincode::deserialize` at the types they are used at. -/
class Bincode where
  serializeTuple : Tuple → Except String Bytes
  deserializeTuple : Bytes → Except String Tuple
  serializeRecord : WALRecord → Except String Bytes

export Bincode (serializeTuple deserializeTuple serializeRecord)

/-- Documented behaviour of the default configuration: decoding inverts encoding,
no tuple is decoded from nothing, integers have fixed width, and a record is
the variant's index followed by its fields. -/
class LawfulBincode [Bincode] : Prop where
  deserialize_serialize {tuple : Tuple} {bytes : Bytes} :
    serializeTuple tuple = .ok bytes → deserializeTuple bytes = .ok tuple
  deserialize_nil : ∃ e, deserializeTuple [] = .error e
  serialize_stamped {tuple : Tuple} {bytes : Bytes} (xmin xmax : UInt64) :
    serializeTuple tuple = .ok bytes →
    ∃ bytes', serializeTuple { tuple with xmin := xmin, xmax := xmax } = .ok bytes' ∧
      bytes'.length = bytes.length
  serialize_insert {tuple : Tuple} {bytes : Bytes} (relOid : Oid) (pageId : PageId) :
    serializeTuple tuple = .ok bytes →
    ∃ bytes', serializeRecord (.insert relOid pageId tuple) = .ok bytes' ∧
      bytes'.length = bytes.length + 12

/-- The same of the records of updates and deletes. -/
class LawfulBincodeChanges [Bincode] : Prop where
  serialize_update {oldTuple newTuple : Tuple} {oldBytes newBytes : Bytes} (relOid : Oid)
    (pageId : PageId) :
    serializeTuple oldTuple = .ok oldBytes → serializeTuple newTuple = .ok newBytes →
    ∃ bytes, serializeRecord (.update relOid pageId oldTuple newTuple) = .ok bytes ∧
      bytes.length = oldBytes.length + newBytes.length + 12
  serialize_delete {tuple : Tuple} {bytes : Bytes} (relOid : Oid) (pageId : PageId) :
    serializeTuple tuple = .ok bytes →
    ∃ bytes', serializeRecord (.delete relOid pageId tuple) = .ok bytes' ∧
      bytes'.length = bytes.length + 12

theorem serializeTuple_ne_nil [Bincode] [LawfulBincode] {tuple : Tuple} {bytes : Bytes}
    (h : serializeTuple tuple = .ok bytes) : bytes ≠ [] := by
  rintro rfl
  obtain ⟨e, hnil⟩ := LawfulBincode.deserialize_nil
  have hdecoded := LawfulBincode.deserialize_serialize h
  rw [hnil] at hdecoded
  simp at hdecoded

/-- `bincode::deserialize::<WALRecord>`, which only recovery calls. -/
class BincodeRecords [Bincode] where
  deserializeRecord : Bytes → Except String WALRecord

export BincodeRecords (deserializeRecord)

/-- Documented behaviour of the default configuration on records: decoding inverts
encoding and does not look at what follows, `Begin` is variant 0 so that
`Begin { xid: 0 }` is twelve zero bytes, and fewer of them are no record. -/
class LawfulBincodeRecords [Bincode] [BincodeRecords] : Prop where
  deserialize_append {record : WALRecord} {bytes : Bytes} (rest : Bytes) :
    serializeRecord record = .ok bytes → bytes.length < 2 ^ 64 →
    deserializeRecord (bytes ++ rest) = .ok record
  serialize_begin_zero : serializeRecord (.begin 0) = .ok (List.replicate 12 0)
  deserialize_short {count : Nat} : count < 12 →
    ∃ e, deserializeRecord (List.replicate count 0) = .error e

theorem serializeRecord_ne_nil [Bincode] [BincodeRecords] [LawfulBincodeRecords]
    {record : WALRecord} {bytes : Bytes} (h : serializeRecord record = .ok bytes) :
    bytes ≠ [] := by
  rintro rfl
  have hzero := LawfulBincodeRecords.serialize_begin_zero
  have hbegin := LawfulBincodeRecords.deserialize_append [] hzero (by decide)
  have hrecord := LawfulBincodeRecords.deserialize_append (List.replicate 12 0) h (by decide)
  rw [List.append_nil] at hbegin
  rw [List.nil_append, hbegin] at hrecord
  cases hrecord
  rw [hzero] at h
  cases h

section FixedInt

/-- Split off `count` bytes. -/
def takeBytes (count : Nat) (bytes : Bytes) : Option (Bytes × Bytes) :=
  if count ≤ bytes.length then some (bytes.take count, bytes.drop count) else none

def readInt (width : Nat) (bytes : Bytes) : Option (Nat × Bytes) := do
  let (digits, rest) ← takeBytes width bytes
  pure (fromLeBytes digits, rest)

def readSlots : Nat → Bytes → Option (List SlotId × Bytes)
  | 0, bytes => some ([], bytes)
  | count + 1, bytes => do
      let (slot, bytes) ← readInt 2 bytes
      let (slots, bytes) ← readSlots count bytes
      pure (⟨UInt16.ofNat slot⟩ :: slots, bytes)

def encodeTuple (tuple : Tuple) : Bytes :=
  toLeBytes 8 tuple.slots.length ++ tuple.slots.flatMap (fun slot => toLeBytes 2 slot.val.toNat) ++
    toLeBytes 8 tuple.data.length ++ tuple.data ++ toLeBytes 8 tuple.xmin.toNat ++
    toLeBytes 8 tuple.xmax.toNat ++ toLeBytes 4 tuple.cmin.toNat ++
    toLeBytes 4 tuple.cmax.toNat ++ toLeBytes 8 tuple.xvac.toNat

def decodeTuple (bytes : Bytes) : Option Tuple := do
  let (slotCount, bytes) ← readInt 8 bytes
  let (slots, bytes) ← readSlots slotCount bytes
  let (dataLen, bytes) ← readInt 8 bytes
  let (data, bytes) ← takeBytes dataLen bytes
  let (xmin, bytes) ← readInt 8 bytes
  let (xmax, bytes) ← readInt 8 bytes
  let (cmin, bytes) ← readInt 4 bytes
  let (cmax, bytes) ← readInt 4 bytes
  let (xvac, _) ← readInt 8 bytes
  pure
    { slots := slots
      data := data
      xmin := UInt64.ofNat xmin
      xmax := UInt64.ofNat xmax
      cmin := UInt32.ofNat cmin
      cmax := UInt32.ofNat cmax
      xvac := UInt64.ofNat xvac }

def encodeRecord : WALRecord → Bytes
  | .begin xid => toLeBytes 4 0 ++ toLeBytes 8 xid.toNat
  | .insert relOid pageId tuple =>
      toLeBytes 4 1 ++ toLeBytes 4 relOid.val.toNat ++ toLeBytes 4 pageId.val.toNat ++
        encodeTuple tuple
  | .update relOid pageId oldTuple newTuple =>
      toLeBytes 4 2 ++ toLeBytes 4 relOid.val.toNat ++ toLeBytes 4 pageId.val.toNat ++
        encodeTuple oldTuple ++ encodeTuple newTuple
  | .delete relOid pageId tuple =>
      toLeBytes 4 3 ++ toLeBytes 4 relOid.val.toNat ++ toLeBytes 4 pageId.val.toNat ++
        encodeTuple tuple
  | .commit xid => toLeBytes 4 4 ++ toLeBytes 8 xid.toNat
  | .abort xid => toLeBytes 4 5 ++ toLeBytes 8 xid.toNat
  | .checkpoint record =>
      toLeBytes 4 6 ++ toLeBytes 4 record.nextXid.toNat ++ toLeBytes 4 record.nextOid.toNat ++
        toLeBytes 4 record.nextMultixact.toNat ++ toLeBytes 4 record.oldestXid.toNat ++
        toLeBytes 4 record.oldestMultixact.toNat ++
        toLeBytes 4 record.oldestCommitTsXid.toNat ++
        toLeBytes 4 record.newCommitTsXid.toNat ++ toLeBytes 8 record.checkpointLsn.toNat ++
        toLeBytes 8 record.redoLsn.toNat ++ toLeBytes 4 record.timelineId.toNat

/-- Lengths are written as `u64`. -/
def Encodable (tuple : Tuple) : Prop :=
  tuple.slots.length < 2 ^ 64 ∧ tuple.data.length < 2 ^ 64

instance (tuple : Tuple) : Decidable (Encodable tuple) :=
  inferInstanceAs (Decidable (_ ∧ _))

/-- The default configuration: little endian, fixed-width integers, trailing
bytes allowed. -/
instance fixedInt : Bincode where
  serializeTuple tuple :=
    if Encodable tuple then .ok (encodeTuple tuple) else .error "the size limit has been reached"
  deserializeTuple bytes :=
    match decodeTuple bytes with
    | some tuple => .ok tuple
    | none => .error "io error: unexpected end of file"
  serializeRecord record := .ok (encodeRecord record)

@[simp] theorem takeBytes_append (window rest : Bytes) :
    takeBytes window.length (window ++ rest) = some (window, rest) := by
  simp [takeBytes]

theorem readInt_append (width n : Nat) (hn : n < 256 ^ width) (rest : Bytes) :
    readInt width (toLeBytes width n ++ rest) = some (n, rest) := by
  have htake := takeBytes_append (toLeBytes width n) rest
  rw [toLeBytes_length] at htake
  simp only [readInt, htake, Option.bind_eq_bind, Option.bind_some,
    fromLeBytes_toLeBytes width n hn]
  rfl

/-- What is read is handed on. -/
theorem bind_of_eq_some {α β : Type} {read : Option α} {a : α} (h : read = some a)
    (next : α → Option β) : (read >>= next) = next a := by
  rw [h]
  rfl

theorem readSlots_append (slots : List SlotId) (rest : Bytes) :
    readSlots slots.length (slots.flatMap (fun slot => toLeBytes 2 slot.val.toNat) ++ rest) =
      some (slots, rest) := by
  induction slots with
  | nil => rfl
  | cons slot slots ih =>
      have hslot : slot.val.toNat < 256 ^ 2 := slot.val.toNat_lt
      simp only [List.length_cons, List.flatMap_cons, List.append_assoc, readSlots,
        readInt_append 2 _ hslot, Option.bind_eq_bind, Option.bind_some, ih]
      simp

theorem decodeTuple_encodeTuple {tuple : Tuple} (h : Encodable tuple) :
    decodeTuple (encodeTuple tuple) = some tuple := by
  have hslots : tuple.slots.length < 256 ^ 8 := h.1
  have hdata : tuple.data.length < 256 ^ 8 := h.2
  have hxmin : tuple.xmin.toNat < 256 ^ 8 := tuple.xmin.toNat_lt
  have hxmax : tuple.xmax.toNat < 256 ^ 8 := tuple.xmax.toNat_lt
  have hcmin : tuple.cmin.toNat < 256 ^ 4 := tuple.cmin.toNat_lt
  have hcmax : tuple.cmax.toNat < 256 ^ 4 := tuple.cmax.toNat_lt
  have hxvac : tuple.xvac.toNat < 256 ^ 8 := tuple.xvac.toNat_lt
  have hlast := readInt_append 8 _ hxvac []
  rw [List.append_nil] at hlast
  rw [decodeTuple, encodeTuple]
  simp only [List.append_assoc]
  simp only [↓bind_of_eq_some (readInt_append _ _ hslots _),
    ↓bind_of_eq_some (readSlots_append _ _), ↓bind_of_eq_some (readInt_append _ _ hdata _),
    ↓bind_of_eq_some (takeBytes_append _ _), ↓bind_of_eq_some (readInt_append _ _ hxmin _),
    ↓bind_of_eq_some (readInt_append _ _ hxmax _), ↓bind_of_eq_some (readInt_append _ _ hcmin _),
    ↓bind_of_eq_some (readInt_append _ _ hcmax _), ↓bind_of_eq_some hlast,
    UInt32.ofNat_toNat, UInt64.ofNat_toNat]
  rfl

theorem encodeTuple_length (tuple : Tuple) :
    (encodeTuple tuple).length = 48 + 2 * tuple.slots.length + tuple.data.length := by
  have hslots : ∀ slots : List SlotId,
      (slots.flatMap fun slot => toLeBytes 2 slot.val.toNat).length = 2 * slots.length := by
    intro slots
    induction slots with
    | nil => rfl
    | cons slot slots ih =>
        rw [List.flatMap_cons, List.length_append, ih, toLeBytes_length, List.length_cons]
        omega
  simp only [encodeTuple, List.length_append, toLeBytes_length, hslots]
  omega

instance : LawfulBincode where
  deserialize_serialize := by
    intro tuple bytes h
    simp only [serializeTuple] at h
    split at h
    · rename_i hencodable
      cases h
      simp only [deserializeTuple, decodeTuple_encodeTuple hencodable]
    · simp at h
  deserialize_nil := ⟨_, rfl⟩
  serialize_stamped := by
    intro tuple bytes xmin xmax h
    simp only [serializeTuple] at h ⊢
    split at h
    · rename_i hencodable
      cases h
      refine ⟨encodeTuple { tuple with xmin := xmin, xmax := xmax }, ?_, ?_⟩
      · exact if_pos hencodable
      · simp [encodeTuple]
    · simp at h
  serialize_insert := by
    intro tuple bytes relOid pageId h
    simp only [serializeTuple, serializeRecord] at h ⊢
    split at h
    · cases h
      refine ⟨_, rfl, ?_⟩
      simp only [encodeRecord, List.length_append, toLeBytes_length]
      omega
    · simp at h

theorem serializeTuple_eq_ok {tuple : Tuple} {bytes : Bytes}
    (h : serializeTuple tuple = .ok bytes) : bytes = encodeTuple tuple := by
  simp only [serializeTuple] at h
  split at h
  · cases h
    rfl
  · cases h

instance lawfulChanges : LawfulBincodeChanges where
  serialize_update := by
    intro oldTuple newTuple oldBytes newBytes relOid pageId hold hnew
    rw [serializeTuple_eq_ok hold, serializeTuple_eq_ok hnew]
    refine ⟨_, rfl, ?_⟩
    simp only [encodeRecord, List.length_append, toLeBytes_length]
    omega
  serialize_delete := by
    intro tuple bytes relOid pageId h
    rw [serializeTuple_eq_ok h]
    refine ⟨_, rfl, ?_⟩
    simp only [encodeRecord, List.length_append, toLeBytes_length]
    omega

/-- A tuple at the front. -/
def readTuple (bytes : Bytes) : Option (Tuple × Bytes) := do
  let (slotCount, bytes) ← readInt 8 bytes
  let (slots, bytes) ← readSlots slotCount bytes
  let (dataLen, bytes) ← readInt 8 bytes
  let (data, bytes) ← takeBytes dataLen bytes
  let (xmin, bytes) ← readInt 8 bytes
  let (xmax, bytes) ← readInt 8 bytes
  let (cmin, bytes) ← readInt 4 bytes
  let (cmax, bytes) ← readInt 4 bytes
  let (xvac, bytes) ← readInt 8 bytes
  pure
    ({ slots := slots
       data := data
       xmin := UInt64.ofNat xmin
       xmax := UInt64.ofNat xmax
       cmin := UInt32.ofNat cmin
       cmax := UInt32.ofNat cmax
       xvac := UInt64.ofNat xvac }, bytes)

def readCheckpoint (bytes : Bytes) : Option CheckpointRecord := do
  let (nextXid, bytes) ← readInt 4 bytes
  let (nextOid, bytes) ← readInt 4 bytes
  let (nextMultixact, bytes) ← readInt 4 bytes
  let (oldestXid, bytes) ← readInt 4 bytes
  let (oldestMultixact, bytes) ← readInt 4 bytes
  let (oldestCommitTsXid, bytes) ← readInt 4 bytes
  let (newCommitTsXid, bytes) ← readInt 4 bytes
  let (checkpointLsn, bytes) ← readInt 8 bytes
  let (redoLsn, bytes) ← readInt 8 bytes
  let (timelineId, _) ← readInt 4 bytes
  pure
    { nextXid := UInt32.ofNat nextXid
      nextOid := UInt32.ofNat nextOid
      nextMultixact := UInt32.ofNat nextMultixact
      oldestXid := UInt32.ofNat oldestXid
      oldestMultixact := UInt32.ofNat oldestMultixact
      oldestCommitTsXid := UInt32.ofNat oldestCommitTsXid
      newCommitTsXid := UInt32.ofNat newCommitTsXid
      checkpointLsn := UInt64.ofNat checkpointLsn
      redoLsn := UInt64.ofNat redoLsn
      timelineId := UInt32.ofNat timelineId }

/-- The relation, the page and the tuple of an insert or a delete. -/
def readChange (bytes : Bytes) : Option (Oid × PageId × Tuple × Bytes) := do
  let (relOid, bytes) ← readInt 4 bytes
  let (pageId, bytes) ← readInt 4 bytes
  let (tuple, bytes) ← readTuple bytes
  pure (⟨UInt32.ofNat relOid⟩, ⟨UInt32.ofNat pageId⟩, tuple, bytes)

def decodeRecord (bytes : Bytes) : Option WALRecord := do
  let (variant, bytes) ← readInt 4 bytes
  match variant with
  | 0 =>
      let (xid, _) ← readInt 8 bytes
      pure (.begin (UInt64.ofNat xid))
  | 1 =>
      let (relOid, pageId, tuple, _) ← readChange bytes
      pure (.insert relOid pageId tuple)
  | 2 =>
      let (relOid, pageId, oldTuple, bytes) ← readChange bytes
      let (newTuple, _) ← readTuple bytes
      pure (.update relOid pageId oldTuple newTuple)
  | 3 =>
      let (relOid, pageId, tuple, _) ← readChange bytes
      pure (.delete relOid pageId tuple)
  | 4 =>
      let (xid, _) ← readInt 8 bytes
      pure (.commit (UInt64.ofNat xid))
  | 5 =>
      let (xid, _) ← readInt 8 bytes
      pure (.abort (UInt64.ofNat xid))
  | 6 =>
      let record ← readCheckpoint bytes
      pure (.checkpoint record)
  | _ => none

instance : BincodeRecords where
  deserializeRecord bytes :=
    match decodeRecord bytes with
    | some record => .ok record
    | none => .error "io error: unexpected end of file"

theorem readTuple_append {tuple : Tuple} (h : Encodable tuple) (rest : Bytes) :
    readTuple (encodeTuple tuple ++ rest) = some (tuple, rest) := by
  have hslots : tuple.slots.length < 256 ^ 8 := h.1
  have hdata : tuple.data.length < 256 ^ 8 := h.2
  have hxmin : tuple.xmin.toNat < 256 ^ 8 := tuple.xmin.toNat_lt
  have hxmax : tuple.xmax.toNat < 256 ^ 8 := tuple.xmax.toNat_lt
  have hcmin : tuple.cmin.toNat < 256 ^ 4 := tuple.cmin.toNat_lt
  have hcmax : tuple.cmax.toNat < 256 ^ 4 := tuple.cmax.toNat_lt
  have hxvac : tuple.xvac.toNat < 256 ^ 8 := tuple.xvac.toNat_lt
  rw [readTuple, encodeTuple]
  simp only [List.append_assoc]
  simp only [↓bind_of_eq_some (readInt_append _ _ hslots _),
    ↓bind_of_eq_some (readSlots_append _ _), ↓bind_of_eq_some (readInt_append _ _ hdata _),
    ↓bind_of_eq_some (takeBytes_append _ _), ↓bind_of_eq_some (readInt_append _ _ hxmin _),
    ↓bind_of_eq_some (readInt_append _ _ hxmax _), ↓bind_of_eq_some (readInt_append _ _ hcmin _),
    ↓bind_of_eq_some (readInt_append _ _ hcmax _), ↓bind_of_eq_some (readInt_append _ _ hxvac _),
    UInt32.ofNat_toNat, UInt64.ofNat_toNat]
  rfl

theorem readCheckpoint_append (record : CheckpointRecord) (rest : Bytes) :
    readCheckpoint ((encodeRecord (.checkpoint record)).drop 4 ++ rest) = some record := by
  have hwords : ∀ x : UInt32, x.toNat < 256 ^ 4 := fun x => x.toNat_lt
  have hlongs : ∀ x : UInt64, x.toNat < 256 ^ 8 := fun x => x.toNat_lt
  have hdrop : (encodeRecord (.checkpoint record)).drop 4 =
      toLeBytes 4 record.nextXid.toNat ++ toLeBytes 4 record.nextOid.toNat ++
        toLeBytes 4 record.nextMultixact.toNat ++ toLeBytes 4 record.oldestXid.toNat ++
        toLeBytes 4 record.oldestMultixact.toNat ++
        toLeBytes 4 record.oldestCommitTsXid.toNat ++
        toLeBytes 4 record.newCommitTsXid.toNat ++ toLeBytes 8 record.checkpointLsn.toNat ++
        toLeBytes 8 record.redoLsn.toNat ++ toLeBytes 4 record.timelineId.toNat := by
    simp only [encodeRecord, List.append_assoc]
    rfl
  rw [hdrop, readCheckpoint]
  simp only [List.append_assoc]
  simp only [↓bind_of_eq_some (readInt_append _ _ (hwords _) _),
    ↓bind_of_eq_some (readInt_append _ _ (hlongs _) _), UInt32.ofNat_toNat, UInt64.ofNat_toNat]
  rfl

theorem readChange_append (relOid : Oid) (pageId : PageId) {tuple : Tuple} (h : Encodable tuple)
    (rest : Bytes) :
    readChange (toLeBytes 4 relOid.val.toNat ++ (toLeBytes 4 pageId.val.toNat ++
      (encodeTuple tuple ++ rest))) = some (relOid, pageId, tuple, rest) := by
  have hrel : relOid.val.toNat < 256 ^ 4 := relOid.val.toNat_lt
  have hpage : pageId.val.toNat < 256 ^ 4 := pageId.val.toNat_lt
  simp only [readChange, readInt_append _ _ hrel, readInt_append _ _ hpage, readTuple_append h,
    Option.bind_eq_bind, Option.bind_some]
  simp

theorem encodable_of_length {tuple : Tuple} (h : (encodeTuple tuple).length < 2 ^ 64) :
    Encodable tuple := by
  rw [encodeTuple_length] at h
  exact ⟨by omega, by omega⟩

theorem decodeRecord_append {record : WALRecord} (h : (encodeRecord record).length < 2 ^ 64)
    (rest : Bytes) : decodeRecord (encodeRecord record ++ rest) = some record := by
  have hlongs : ∀ x : UInt64, x.toNat < 256 ^ 8 := fun x => x.toNat_lt
  cases record with
  | begin xid | commit xid | abort xid =>
      simp (disch := decide) only [encodeRecord, decodeRecord, List.append_assoc,
        readInt_append 4, readInt_append _ _ (hlongs _), Option.bind_eq_bind,
        Option.bind_some]
      simp
  | insert relOid pageId tuple | delete relOid pageId tuple =>
      have htuple : Encodable tuple := by
        apply encodable_of_length
        simp only [encodeRecord, List.length_append] at h
        omega
      simp (disch := decide) only [encodeRecord, decodeRecord, List.append_assoc,
        readInt_append 4, readChange_append _ _ htuple, Option.bind_eq_bind,
        Option.bind_some]
      simp
  | update relOid pageId oldTuple newTuple =>
      have hold : Encodable oldTuple := by
        apply encodable_of_length
        simp only [encodeRecord, List.length_append] at h
        omega
      have hnew : Encodable newTuple := by
        apply encodable_of_length
        simp only [encodeRecord, List.length_append] at h
        omega
      simp (disch := decide) only [encodeRecord, decodeRecord, List.append_assoc,
        readInt_append 4, readChange_append _ _ hold, readTuple_append hnew,
        Option.bind_eq_bind, Option.bind_some]
      simp
  | checkpoint record =>
      have hsplit : encodeRecord (.checkpoint record) =
          toLeBytes 4 6 ++ (encodeRecord (.checkpoint record)).drop 4 := by
        simp only [encodeRecord, List.append_assoc]
        rfl
      rw [hsplit]
      simp (disch := decide) only [decodeRecord, List.append_assoc, readInt_append 4,
        readCheckpoint_append, Option.bind_eq_bind, Option.bind_some]
      simp

instance : LawfulBincodeRecords where
  deserialize_append := by
    intro record bytes rest h hlen
    cases h
    simp only [deserializeRecord, decodeRecord_append hlen]
  serialize_begin_zero := rfl
  deserialize_short := by
    intro count hcount
    have hnone : ∀ count < 12, decodeRecord (List.replicate count 0) = none := by decide
    exact ⟨_, by simp only [deserializeRecord, hnone count hcount]; rfl⟩

end FixedInt

end PostgressRs.Wal.LogRecord
