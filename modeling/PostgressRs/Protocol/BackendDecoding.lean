import PostgressRs.Protocol.BackendFraming
import PostgressRs.Protocol.MessageEncoding

/-!
A client's decoder of backend messages: the formats of the PostgreSQL protocol,
version 3, with strict texts and bodies that are read to their end.
-/

namespace PostgressRs.Protocol.BackendDecoding

open PostgressRs.Lib.ByteBuffer
open PostgressRs.Lib.Utf8
open PostgressRs.Protocol.Backend
open PostgressRs.Protocol.BackendFraming
open PostgressRs.Protocol.DecodeTotality
open PostgressRs.Protocol.Frontend
open PostgressRs.Protocol.MessageEncoding
open PostgressRs.Types

section Readers

/-- A text up to its zero byte, which is skipped. -/
def readText (rest : Bytes) : Option (String × Bytes) :=
  match rest.dropWhile (· ≠ 0) with
  | [] => none
  | _ :: behind => (fromUtf8 (rest.takeWhile (· ≠ 0))).map (·, behind)

/-- An `Int16` count, which must not be negative, and as many fields. -/
def readList {α : Type} (readOne : Bytes → Option (α × Bytes)) (rest : Bytes) :
    Option (List α × Bytes) := do
  let (count, rest) ← readI16 rest
  if count < 0 then none else readMany readOne count.toNatClampNeg rest

def readField (rest : Bytes) : Option (FieldDescription × Bytes) := do
  let (name, rest) ← readText rest
  let (tableOid, rest) ← readU32 rest
  let (columnAttr, rest) ← readI16 rest
  let (typeOid, rest) ← readU32 rest
  let (typeSize, rest) ← readI16 rest
  let (typeMod, rest) ← readI32 rest
  let (format, rest) ← readI16 rest
  pure (⟨name, ⟨tableOid⟩, columnAttr, ⟨typeOid⟩, typeSize, typeMod, format⟩, rest)

/-- Fields up to one of type zero. -/
def readErrorFields : Nat → Bytes → Option (List ErrorField × Bytes)
  | fuel + 1, fieldType :: rest =>
      if fieldType = 0 then some ([], rest)
      else do
        let (value, rest) ← readText rest
        let (fields, rest) ← readErrorFields fuel rest
        pure (⟨fieldType, value⟩ :: fields, rest)
  | _, _ => none

def readStatus (rest : Bytes) : Option (BackendMessage × Bytes) := do
  let (name, rest) ← readText rest
  let (value, rest) ← readText rest
  pure (.parameterStatus name value, rest)

/-- A reader of bodies, by the type byte. -/
def readMessage (kind : UInt8) (body : Bytes) : Option (BackendMessage × Bytes) :=
  if kind = 0x53 then readStatus body
  else if kind = 0x54 then (readList readField body).map (Prod.map .rowDescription id)
  else if kind = 0x44 then (readList readValue body).map (Prod.map .dataRow id)
  else if kind = 0x43 then (readText body).map (Prod.map .commandComplete id)
  else if kind = 0x45 then
    (readErrorFields body.length body).map (Prod.map .errorResponse id)
  else if kind = 0x4E then
    (readErrorFields body.length body).map (Prod.map .noticeResponse id)
  else if kind = 0x74 then (readList readU32 body).map (Prod.map .parameterDescription id)
  else none

/-- A frame whose body is one message and nothing else. -/
def decodeFrame : Bytes → Option BackendMessage
  | [] => none
  | kind :: rest =>
      match readMessage kind (rest.drop 4) with
      | some (m, []) => some m
      | _ => none

def decodeMessages (data : Bytes) : Option (List BackendMessage) := do
  let frames ← splitFrames data
  frames.mapM decodeFrame

/-- The messages with a reader: texts have no zero bytes, counts fit into an `Int16`,
and the fields of a row are in text format. -/
def Readable : BackendMessage → Prop
  | .parameterStatus name value => NulFree name ∧ NulFree value
  | .rowDescription fields =>
      fields.length ≤ 32767 ∧ ∀ field ∈ fields, NulFree field.name ∧ field.format = 0
  | .dataRow values => values.length ≤ 32767
  | .commandComplete tag => NulFree tag
  | .errorResponse fields => ∀ field ∈ fields, field.fieldType ≠ 0 ∧ NulFree field.value
  | .noticeResponse fields => ∀ field ∈ fields, field.fieldType ≠ 0 ∧ NulFree field.value
  | .parameterDescription types => types.length ≤ 32767
  | _ => False

end Readers

section RoundTrip

theorem readText_cstring {s : String} (h : NulFree s) (rest : Bytes) :
    readText (cstring s ++ rest) = some (s, rest) := by
  have hall : ∀ byte ∈ asBytes s, decide (byte ≠ 0) = true := by
    intro byte hbyte
    rw [decide_eq_true_eq]
    rintro rfl
    exact h hbyte
  have hdrop : (asBytes s ++ 0 :: rest).dropWhile (· ≠ 0) = 0 :: rest := by
    rw [List.dropWhile_append_of_pos hall]
    rfl
  have htake : (asBytes s ++ 0 :: rest).takeWhile (· ≠ 0) = asBytes s := by
    rw [List.takeWhile_append_of_pos hall, List.takeWhile_cons_of_neg (by decide), List.append_nil]
  rw [readText, cstring, List.append_assoc, List.singleton_append, hdrop, htake, fromUtf8_asBytes]
  rfl

theorem count_toInt16 {n : Nat} (hn : n ≤ 32767) :
    ¬(UInt16.ofNat n).toInt16 < 0 ∧ (UInt16.ofNat n).toInt16.toNatClampNeg = n := by
  have hint : (UInt16.ofNat n).toInt16.toInt = n := by
    have hbits : (UInt16.ofNat n).toInt16.toInt = (UInt16.ofNat n).toBitVec.toInt := rfl
    have hval : (UInt16.ofNat n).toBitVec.toNat = n := by
      simpa using UInt16.toNat_ofNat_of_lt' (by omega : n < 2 ^ 16)
    rw [hbits, BitVec.toInt_eq_toNat_cond, hval, if_pos (by omega)]
  constructor
  · rw [Int16.lt_iff_toInt_lt, hint]
    have hzero : Int16.toInt 0 = 0 := rfl
    omega
  · rw [Int16.toNatClampNeg, hint]
    exact Int.toNat_natCast n

theorem readList_counted {α : Type} {readOne : Bytes → Option (α × Bytes)}
    {encodeOne : α → Bytes} {values : List α} (hcount : values.length ≤ 32767)
    (h : ∀ value ∈ values, ∀ rest, readOne (encodeOne value ++ rest) = some (value, rest)) :
    readList readOne (counted encodeOne values) = some (values, []) := by
  obtain ⟨hpos, hnat⟩ := count_toInt16 hcount
  have hmany := readMany_encoded h []
  rw [List.append_nil] at hmany
  simp only [readList, readI16, counted, readU16_toBeBytes (by omega : values.length < 2 ^ 16),
    Option.bind_eq_bind, Option.bind_some, Option.pure_def, if_neg hpos, hnat, hmany]

theorem readField_encode {field : FieldDescription} (hname : NulFree field.name)
    (hformat : field.format = 0) (rest : Bytes) :
    readField (field.encode ++ rest) = some (field, rest) := by
  obtain ⟨name, tableOid, columnAttr, typeOid, typeSize, typeMod, format⟩ := field
  dsimp only at hname hformat
  subst hformat
  simp only [readField, FieldDescription.encode, List.append_assoc, readText_cstring hname,
    readU32_encoded, readI16_encoded, readI32_encoded, Option.bind_eq_bind, Option.bind_some]
  rfl

theorem readErrorFields_encode {fields : List ErrorField}
    (h : ∀ field ∈ fields, field.fieldType ≠ 0 ∧ NulFree field.value) {fuel : Nat}
    (hfuel : fields.length < fuel) :
    readErrorFields fuel (fields.flatMap ErrorField.encode ++ [0]) = some (fields, []) := by
  induction fields generalizing fuel with
  | nil =>
      obtain ⟨fuel, rfl⟩ : ∃ fuel', fuel = fuel' + 1 := ⟨fuel - 1, by omega⟩
      rfl
  | cons field fields ih =>
      rw [List.length_cons] at hfuel
      obtain ⟨fuel, rfl⟩ : ∃ fuel', fuel = fuel' + 1 := ⟨fuel - 1, by omega⟩
      obtain ⟨htype, hvalue⟩ := h field List.mem_cons_self
      have hrest := ih (fun field' h' => h field' (List.mem_cons_of_mem _ h'))
        (by omega : fields.length < fuel)
      rw [List.flatMap_cons, List.append_assoc, ErrorField.encode, List.cons_append,
        readErrorFields, if_neg htype]
      simp only [readText_cstring hvalue, hrest, Option.bind_eq_bind, Option.bind_some]
      rfl

theorem length_errorFields (fields : List ErrorField) :
    fields.length < (fields.flatMap ErrorField.encode ++ [0]).length := by
  induction fields with
  | nil => decide
  | cons field fields ih =>
      rw [List.length_append] at ih ⊢
      rw [List.flatMap_cons, List.length_append, ErrorField.encode, List.length_cons,
        List.length_cons]
      omega

theorem readValue_part {values : List (Option Bytes)}
    (hsmall : (counted encodeValue values).length < 2 ^ 31) (value : Option Bytes)
    (hvalue : value ∈ values) (rest : Bytes) :
    readValue (encodeValue value ++ rest) = some (value, rest) := by
  apply readValue_encoded
  intro bytes hbytes
  have hle : (encodeValue value).length ≤ (values.flatMap encodeValue).length :=
    length_le_flatMap hvalue
  cases hbytes
  simp only [encodeValue, List.length_append] at hle
  simp only [counted, List.length_append] at hsmall
  omega

theorem decodeFrame_framed {kind : UInt8} {body : Bytes} {m : BackendMessage}
    (h : readMessage kind body = some (m, [])) : decodeFrame (framed kind body) = some m := by
  rw [framed, decodeFrame, List.drop_left' (toBeBytes_length 4 _), h]

theorem decodeFrame_encode {m : BackendMessage} (h : Readable m)
    (hsmall : m.encode.length < 2 ^ 31 + 5) : decodeFrame m.encode = some m := by
  cases m with
  | parameterStatus name value =>
      apply decodeFrame_framed
      have hvalue := readText_cstring h.2 []
      rw [List.append_nil] at hvalue
      simp only [readMessage, if_true, readStatus, readText_cstring h.1, hvalue,
        Option.bind_eq_bind, Option.bind_some]
      rfl
  | rowDescription fields =>
      apply decodeFrame_framed
      have hread := readList_counted h.1
        fun field hfield => readField_encode (h.2 field hfield).1 (h.2 field hfield).2
      rw [readMessage, if_neg (by decide), if_pos rfl, hread]
      rfl
  | dataRow values =>
      apply decodeFrame_framed
      rw [BackendMessage.encode, length_framed] at hsmall
      have hread := readList_counted h (readValue_part (by omega))
      rw [readMessage, if_neg (by decide), if_neg (by decide), if_pos rfl, hread]
      rfl
  | commandComplete tag =>
      apply decodeFrame_framed
      have htag := readText_cstring h []
      rw [List.append_nil] at htag
      simp only [readMessage, htag]
      rfl
  | errorResponse fields =>
      apply decodeFrame_framed
      simp only [readMessage, readErrorFields_encode h (length_errorFields fields)]
      rfl
  | noticeResponse fields =>
      apply decodeFrame_framed
      simp only [readMessage, readErrorFields_encode h (length_errorFields fields)]
      rfl
  | parameterDescription types =>
      apply decodeFrame_framed
      simp only [readMessage, readList_counted h fun oid _ => readU32_encoded oid]
      rfl
  | _ => exact h.elim

theorem mapM_decodeFrame {ms : List BackendMessage}
    (h : ∀ m ∈ ms, decodeFrame m.encode = some m) :
    (ms.map BackendMessage.encode).mapM decodeFrame = some ms := by
  induction ms with
  | nil => rfl
  | cons m ms ih =>
      have hrest := ih fun m' hm' => h m' (List.mem_cons_of_mem _ hm')
      rw [List.map_cons, List.mapM_cons, h m List.mem_cons_self, hrest]
      rfl

theorem Readable.not_miscounted {m : BackendMessage} (h : Readable m) : ¬Miscounted m := by
  rintro (rfl | rfl)
  · exact h
  · exact h

end RoundTrip

end PostgressRs.Protocol.BackendDecoding
