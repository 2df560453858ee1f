import Mathlib.Data.List.TakeWhile
import PostgressRs.Protocol.Frontend

/-!
The byte strings on which the frontend decoder does not panic.
-/

namespace PostgressRs.Protocol.DecodeTotality

open PostgressRs.Lib.ByteBuffer
open PostgressRs.Lib.Utf8
open PostgressRs.Protocol.Frontend

section Grammar

/-- A zero-terminated text, then what `P` says. -/
def CstringThen (P : Bytes → Prop) (bytes : Bytes) : Prop :=
  ∃ text rest, bytes = text ++ 0 :: rest ∧ 0 ∉ text ∧ P rest

/-- A two-byte count, as many fields of `width` bytes, then what `P` says. -/
def FieldsThen (width : Nat) (P : Bytes → Prop) (bytes : Bytes) : Prop :=
  ∃ count fields rest, bytes = count ++ (fields ++ rest) ∧ count.length = 2 ∧
    fields.length = width * fromBeBytes count ∧ P rest

/-- Parameter values: a null, or a length and as many bytes. -/
inductive Values : Nat → Bytes → Prop
  | nil : Values 0 []
  | null {count : Nat} {bytes : Bytes} : Values count bytes →
      Values (count + 1) ([0xFF, 0xFF, 0xFF, 0xFF] ++ bytes)
  | value {count : Nat} {length value bytes : Bytes} : length.length = 4 →
      fromBeBytes length = value.length → value.length < 2 ^ 31 → Values count bytes →
      Values (count + 1) (length ++ (value ++ bytes))

/-- A two-byte count, as many parameter values, then what `P` says. -/
def ValuesThen (P : Bytes → Prop) (bytes : Bytes) : Prop :=
  ∃ count values rest, bytes = count ++ (values ++ rest) ∧ count.length = 2 ∧
    Values (fromBeBytes count) values ∧ P rest

/-- The body has the fields its message type counts on; bytes behind them do not
matter. -/
def WellCounted (msgType : UInt8) (body : Bytes) : Prop :=
  if msgType = 0x50 then CstringThen (CstringThen (FieldsThen 4 fun _ => True)) body
  else if msgType = 0x42 then
    CstringThen (CstringThen (FieldsThen 2 (ValuesThen (FieldsThen 2 fun _ => True)))) body
  else if msgType = 0x45 then CstringThen (fun rest => 4 ≤ rest.length) body
  else if msgType = 0x44 ∨ msgType = 0x43 then body ≠ []
  else True

/-- A buffer from position `pos` on: messages with well-counted bodies up to the
end or to a part that is left alone, because it has no room for a length or has
a length that is below four or goes beyond the end. -/
inductive Decodable : Nat → Bytes → Prop
  | short {pos : Nat} {rest : Bytes} : rest.length < 4 → Decodable pos rest
  | stopped {pos : Nat} {msgType : UInt8} {length rest : Bytes} : length.length = 4 →
      (lengthField length < 4 ∨
        4 + rest.length < lengthField length ∧ pos + 1 + lengthField length < 2 ^ 64) →
      Decodable pos (msgType :: (length ++ rest))
  | message {pos : Nat} {msgType : UInt8} {length body rest : Bytes} : length.length = 4 →
      lengthField length = 4 + body.length → WellCounted msgType body →
      Decodable (pos + 5 + body.length) rest →
      Decodable pos (msgType :: (length ++ (body ++ rest)))

end Grammar

section Fields

variable {P : Bytes → Prop}

theorem takeBytes_append (front rest : Bytes) :
    takeBytes front.length (front ++ rest) = some (front, rest) := by
  rw [takeBytes, if_pos (by simp), List.take_left, List.drop_left]

theorem takeBytes_eq_some {count : Nat} {rest bytes rest' : Bytes} :
    takeBytes count rest = some (bytes, rest') ↔ rest = bytes ++ rest' ∧ bytes.length = count := by
  constructor
  · intro h
    unfold takeBytes at h
    split at h
    · cases h
      exact ⟨(List.take_append_drop _ _).symm, by rw [List.length_take]; omega⟩
    · cases h
  · rintro ⟨rfl, rfl⟩
    exact takeBytes_append bytes rest'

theorem readCstring_append {text rest : Bytes} (h : 0 ∉ text) :
    readCstring (text ++ 0 :: rest) = (fromUtf8Lossy text, rest) := by
  have htake : (text ++ 0 :: rest).takeWhile (· ≠ 0) = text := by
    rw [List.takeWhile_append_of_pos]
    · simp
    · intro byte hbyte
      simpa using fun hzero : byte = 0 => h (hzero ▸ hbyte)
  simp only [readCstring, htake]
  rw [List.drop_left]
  rfl

/-- Behind a text there is something only if the text is terminated. -/
theorem readCstring_cases (bytes : Bytes) :
    (∃ text rest, bytes = text ++ 0 :: rest ∧ 0 ∉ text) ∨ (readCstring bytes).2 = [] := by
  by_cases hzero : (0 : UInt8) ∈ bytes
  · obtain ⟨text, rest, rfl, hnot⟩ := List.eq_append_cons_of_mem hzero
    exact Or.inl ⟨text, rest, rfl, hnot⟩
  · refine Or.inr ?_
    have htake : bytes.takeWhile (· ≠ 0) = bytes := by
      rw [List.takeWhile_eq_self_iff]
      intro byte hbyte
      simpa using fun heq : byte = 0 => hzero (heq ▸ hbyte)
    simp only [readCstring, htake, List.drop_length, List.drop_nil]

theorem readCstring_then (hP : ¬P []) (bytes : Bytes) :
    P (readCstring bytes).2 ↔ CstringThen P bytes := by
  constructor
  · intro h
    rcases readCstring_cases bytes with ⟨text, rest, rfl, hnot⟩ | hnil
    · rw [readCstring_append hnot] at h
      exact ⟨text, rest, rfl, hnot, h⟩
    · rw [hnil] at h
      exact absurd h hP
  · rintro ⟨text, rest, rfl, hnot, h⟩
    rwa [readCstring_append hnot]

theorem not_cstringThen_nil : ¬CstringThen P [] := by
  rintro ⟨text, rest, heq, -⟩
  simp at heq

theorem not_fieldsThen_nil (width : Nat) : ¬FieldsThen width P [] := by
  rintro ⟨count, fields, rest, heq, hcount, -⟩
  have hlen := congrArg List.length heq
  simp only [List.length_nil, List.length_append] at hlen
  omega

/-- A field of fixed width. -/
def ReadsFixed {α : Type} (readOne : Bytes → Option (α × Bytes)) (width : Nat) : Prop :=
  ∀ rest rest', (∃ value, readOne rest = some (value, rest')) ↔
    width ≤ rest.length ∧ rest' = rest.drop width

theorem takeBytes_fixed (width : Nat) : ReadsFixed (takeBytes width) width := by
  intro rest rest'
  simp only [takeBytes]
  split
  · simp [*, eq_comm]
  · simp [*]

theorem ReadsFixed.map {α β : Type} {readOne : Bytes → Option (α × Bytes)} {width : Nat}
    (h : ReadsFixed readOne width) (f : α → β) :
    ReadsFixed (fun rest => (readOne rest).bind fun entry => some (f entry.1, entry.2)) width := by
  intro rest rest'
  rw [← h rest rest']
  constructor
  · rintro ⟨value, hvalue⟩
    obtain ⟨⟨a, rest''⟩, ha, heq⟩ := Option.bind_eq_some_iff.mp hvalue
    cases heq
    exact ⟨a, ha⟩
  · rintro ⟨a, ha⟩
    refine ⟨f a, ?_⟩
    simp only [ha, Option.bind_some]

theorem readU16_fixed : ReadsFixed readU16 2 :=
  (takeBytes_fixed 2).map fun bytes => UInt16.ofNat (fromBeBytes bytes)

theorem readU32_fixed : ReadsFixed readU32 4 :=
  (takeBytes_fixed 4).map fun bytes => UInt32.ofNat (fromBeBytes bytes)

theorem readI16_fixed : ReadsFixed readI16 2 :=
  readU16_fixed.map UInt16.toInt16

theorem readI32_fixed : ReadsFixed readI32 4 :=
  readU32_fixed.map UInt32.toInt32

theorem ReadsFixed.many {α : Type} {readOne : Bytes → Option (α × Bytes)} {width : Nat}
    (h : ReadsFixed readOne width) (count : Nat) :
    ReadsFixed (readMany readOne count) (width * count) := by
  induction count with
  | zero =>
      intro rest rest'
      simp [readMany, eq_comm]
  | succ count ih =>
      intro rest rest'
      have hwidth : width * (count + 1) = width + width * count := by ring
      constructor
      · rintro ⟨values, hvalues⟩
        obtain ⟨⟨value, rest₁⟩, hone, hmany⟩ := Option.bind_eq_some_iff.mp hvalues
        obtain ⟨⟨values', rest₂⟩, hrest, heq⟩ := Option.bind_eq_some_iff.mp hmany
        cases heq
        obtain ⟨hle, rfl⟩ := (h rest rest₁).mp ⟨value, hone⟩
        obtain ⟨hle', rfl⟩ := (ih _ rest').mp ⟨values', hrest⟩
        rw [List.length_drop] at hle'
        rw [hwidth, List.drop_drop]
        exact ⟨by omega, rfl⟩
      · rintro ⟨hle, rfl⟩
        rw [hwidth] at hle ⊢
        obtain ⟨value, hone⟩ := (h rest (rest.drop width)).mpr ⟨by omega, rfl⟩
        obtain ⟨values, hmany⟩ := (ih (rest.drop width) _).mpr
          ⟨by rw [List.length_drop]; omega, rfl⟩
        rw [List.drop_drop] at hmany
        refine ⟨value :: values, ?_⟩
        rw [readMany]
        simp only [hone, hmany, Option.bind_eq_bind, Option.bind_some]
        rfl

/-- The count in front of the fields. -/
theorem readCounted_eq_some {α : Type} {readOne : Bytes → Option (α × Bytes)}
    {rest rest' : Bytes} {values : List α} :
    readCounted readOne rest = some (values, rest') ↔
      ∃ count rest₁, rest = count ++ rest₁ ∧ count.length = 2 ∧
        readMany readOne (fromBeBytes count) rest₁ = some (values, rest') := by
  have hcount : ∀ count : Bytes, count.length = 2 →
      (UInt16.ofNat (fromBeBytes count)).toNat = fromBeBytes count := by
    intro count hlen
    have hlt := fromBeBytes_lt count
    rw [hlen] at hlt
    exact UInt16.toNat_ofNat_of_lt' hlt
  constructor
  · intro h
    obtain ⟨⟨word, rest₁⟩, hword, hmany⟩ := Option.bind_eq_some_iff.mp h
    obtain ⟨⟨count, rest₂⟩, htake, heq⟩ := Option.bind_eq_some_iff.mp hword
    cases heq
    obtain ⟨rfl, hlen⟩ := takeBytes_eq_some.mp htake
    refine ⟨count, rest₁, rfl, hlen, ?_⟩
    rw [← hcount count hlen]
    exact hmany
  · rintro ⟨count, rest₁, rfl, hlen, hmany⟩
    have htake : takeBytes 2 (count ++ rest₁) = some (count, rest₁) :=
      takeBytes_eq_some.mpr ⟨rfl, hlen⟩
    rw [← hcount count hlen] at hmany
    simp only [readCounted, readU16, htake, Option.bind_eq_bind, Option.bind_some]
    exact hmany

theorem readCounted_fixed {α : Type} {readOne : Bytes → Option (α × Bytes)} {width : Nat}
    (h : ReadsFixed readOne width) (rest : Bytes) :
    (∃ values rest', readCounted readOne rest = some (values, rest') ∧ P rest') ↔
      FieldsThen width P rest := by
  constructor
  · rintro ⟨values, rest', hread, hP⟩
    obtain ⟨count, rest₁, rfl, hlen, hmany⟩ := readCounted_eq_some.mp hread
    obtain ⟨hle, rfl⟩ := (h.many _ rest₁ rest').mp ⟨values, hmany⟩
    exact ⟨count, rest₁.take (width * fromBeBytes count), _, by rw [List.take_append_drop], hlen,
      by rw [List.length_take]; omega, hP⟩
  · rintro ⟨count, fields, rest', rfl, hlen, hfields, hP⟩
    obtain ⟨values, hmany⟩ := (h.many (fromBeBytes count) (fields ++ rest') rest').mpr
      ⟨by rw [List.length_append]; omega, by rw [← hfields, List.drop_left]⟩
    exact ⟨values, rest', readCounted_eq_some.mpr ⟨count, _, rfl, hlen, hmany⟩, hP⟩

end Fields

section Values

/-- The value of four bytes read as an `i32`. -/
theorem toInt_word {n : Nat} (hn : n < 2 ^ 32) :
    (UInt32.ofNat n).toInt32.toInt = if n < 2 ^ 31 then (n : Int) else (n : Int) - 2 ^ 32 := by
  have hbits : (UInt32.ofNat n).toInt32.toInt = (UInt32.ofNat n).toBitVec.toInt := rfl
  have hval : (UInt32.ofNat n).toBitVec.toNat = n := by
    simpa using UInt32.toNat_ofNat_of_lt' hn
  rw [hbits, BitVec.toInt_eq_toNat_cond, hval]
  split <;> split <;> omega

/-- The readings of a length field. -/
theorem length_word {length : Bytes} (hlen : length.length = 4) :
    ((UInt32.ofNat (fromBeBytes length)).toInt32 = -1 ↔
        length = [0xFF, 0xFF, 0xFF, 0xFF]) ∧
      ((UInt32.ofNat (fromBeBytes length)).toInt32 < 0 ↔ 2 ^ 31 ≤ fromBeBytes length) ∧
      (fromBeBytes length < 2 ^ 31 →
        (UInt32.ofNat (fromBeBytes length)).toInt32.toNatClampNeg = fromBeBytes length) := by
  have hlt := fromBeBytes_lt length
  rw [hlen] at hlt
  have hint := toInt_word hlt
  refine ⟨?_, ?_, ?_⟩
  · rw [← Int32.toInt_inj, hint]
    have hminus : Int32.toInt (-1) = -1 := rfl
    have hones : fromBeBytes [0xFF, 0xFF, 0xFF, 0xFF] = 2 ^ 32 - 1 := rfl
    constructor
    · intro h
      have hmax : fromBeBytes length = 2 ^ 32 - 1 := by
        rw [hminus] at h
        split at h <;> omega
      have hbytes := toBeBytes_fromBeBytes length
      rw [hlen, hmax] at hbytes
      rw [← hbytes]
      rfl
    · rintro rfl
      rw [hones, hminus]
      rfl
  · rw [Int32.lt_iff_toInt_lt, hint]
    have hzero : Int32.toInt 0 = 0 := rfl
    rw [hzero]
    split <;> omega
  · intro hsmall
    rw [Int32.toNatClampNeg, hint, if_pos hsmall]
    exact Int.toNat_natCast _

theorem readValue_iff (rest rest' : Bytes) :
    (∃ value, readValue rest = some (value, rest')) ↔
      rest = [0xFF, 0xFF, 0xFF, 0xFF] ++ rest' ∨
        ∃ length value, rest = length ++ (value ++ rest') ∧ length.length = 4 ∧
          fromBeBytes length = value.length ∧ value.length < 2 ^ 31 := by
  have hread : ∀ length rest : Bytes, length.length = 4 →
      readI32 (length ++ rest) = some ((UInt32.ofNat (fromBeBytes length)).toInt32, rest) := by
    intro length rest hlen
    have htake : takeBytes 4 (length ++ rest) = some (length, rest) :=
      takeBytes_eq_some.mpr ⟨rfl, hlen⟩
    simp only [readI32, readU32, htake, Option.bind_eq_bind, Option.bind_some, Option.pure_def]
  constructor
  · rintro ⟨value, hvalue⟩
    obtain ⟨⟨len, rest₁⟩, hlength, hvalue⟩ := Option.bind_eq_some_iff.mp hvalue
    obtain ⟨hle, rfl⟩ := (readI32_fixed rest rest₁).mp ⟨len, hlength⟩
    have hlen : (rest.take 4).length = 4 := by
      rw [List.length_take]
      omega
    obtain ⟨hnull, hneg, hnat⟩ := length_word hlen
    have hsplit := List.take_append_drop 4 rest
    generalize rest.take 4 = length at hlen hnull hneg hnat hsplit
    generalize rest.drop 4 = rest₁ at hsplit hvalue hlength
    subst hsplit
    rw [hread length rest₁ hlen] at hlength
    cases hlength
    dsimp only at hvalue
    split at hvalue
    · rename_i hminus
      cases hvalue
      exact Or.inl (by rw [hnull.mp hminus])
    · split at hvalue
      · cases hvalue
      · rename_i hpos
        have hsmall : fromBeBytes length < 2 ^ 31 := not_le.mp (mt hneg.mpr hpos)
        obtain ⟨⟨bytes, rest₂⟩, htake, heq⟩ := Option.bind_eq_some_iff.mp hvalue
        cases heq
        obtain ⟨rfl, hbytes⟩ := takeBytes_eq_some.mp htake
        rw [hnat hsmall] at hbytes
        exact Or.inr ⟨length, bytes, rfl, hlen, hbytes.symm, by omega⟩
  · rintro (rfl | ⟨length, value, rfl, hlen, hvalue, hsmall⟩)
    · refine ⟨none, ?_⟩
      rw [readValue, hread _ rest' rfl]
      rfl
    · obtain ⟨hnull, hneg, hnat⟩ := length_word hlen
      have hpos : ¬(UInt32.ofNat (fromBeBytes length)).toInt32 < 0 := by
        rw [hneg]
        omega
      have hnotNull : (UInt32.ofNat (fromBeBytes length)).toInt32 ≠ -1 := by
        intro h
        exact hpos (by rw [h]; decide)
      have htake : takeBytes (fromBeBytes length) (value ++ rest') = some (value, rest') :=
        takeBytes_eq_some.mpr ⟨rfl, hvalue.symm⟩
      refine ⟨some value, ?_⟩
      rw [readValue, hread _ _ hlen]
      simp only [Option.bind_eq_bind, Option.bind_some, if_neg hnotNull, if_neg hpos,
        hnat (by omega), htake]
      rfl

theorem readMany_values (count : Nat) (rest rest' : Bytes) :
    (∃ values, readMany readValue count rest = some (values, rest')) ↔
      ∃ bytes, rest = bytes ++ rest' ∧ Values count bytes := by
  induction count generalizing rest with
  | zero =>
      simp only [readMany, Option.some.injEq, Prod.mk.injEq]
      constructor
      · rintro ⟨values, -, rfl⟩
        exact ⟨[], rfl, .nil⟩
      · rintro ⟨bytes, rfl, hbytes⟩
        cases hbytes
        exact ⟨[], rfl, rfl⟩
  | succ count ih =>
      constructor
      · rintro ⟨values, hvalues⟩
        obtain ⟨⟨value, rest₁⟩, hone, hmany⟩ := Option.bind_eq_some_iff.mp hvalues
        obtain ⟨⟨values', rest₂⟩, hrest, heq⟩ := Option.bind_eq_some_iff.mp hmany
        cases heq
        obtain ⟨bytes, rfl, hbytes⟩ := (ih rest₁).mp ⟨values', hrest⟩
        rcases (readValue_iff rest (bytes ++ rest')).mp ⟨value, hone⟩ with rfl |
          ⟨length, held, rfl, hlen, hheld, hsmall⟩
        · exact ⟨[0xFF, 0xFF, 0xFF, 0xFF] ++ bytes, by rw [List.append_assoc], .null hbytes⟩
        · exact ⟨length ++ (held ++ bytes), by simp only [List.append_assoc],
            .value hlen hheld hsmall hbytes⟩
      · rintro ⟨bytes, rfl, hbytes⟩
        obtain ⟨bytes', hrest, hvalue⟩ : ∃ bytes', Values count bytes' ∧
            ∃ value, readValue (bytes ++ rest') = some (value, bytes' ++ rest') := by
          cases hbytes with
          | @null _ bytes' hbytes' =>
              exact ⟨bytes', hbytes', (readValue_iff _ _).mpr
                (Or.inl (by rw [List.append_assoc]))⟩
          | @value _ length value bytes' hlen hvalue hsmall hbytes' =>
              exact ⟨bytes', hbytes', (readValue_iff _ _).mpr
                (Or.inr ⟨length, value, by simp only [List.append_assoc], hlen, hvalue, hsmall⟩)⟩
        obtain ⟨value, hvalue⟩ := hvalue
        obtain ⟨values, hmany⟩ := (ih (bytes' ++ rest')).mpr ⟨bytes', rfl, hrest⟩
        refine ⟨value :: values, ?_⟩
        rw [readMany]
        simp only [hvalue, hmany, Option.bind_eq_bind, Option.bind_some]
        rfl

theorem readCounted_values {P : Bytes → Prop} (rest : Bytes) :
    (∃ values rest', readCounted readValue rest = some (values, rest') ∧ P rest') ↔
      ValuesThen P rest := by
  constructor
  · rintro ⟨values, rest', hread, hP⟩
    obtain ⟨count, rest₁, rfl, hlen, hmany⟩ := readCounted_eq_some.mp hread
    obtain ⟨bytes, rfl, hbytes⟩ := (readMany_values _ rest₁ rest').mp ⟨values, hmany⟩
    exact ⟨count, bytes, rest', rfl, hlen, hbytes, hP⟩
  · rintro ⟨count, bytes, rest', rfl, hlen, hbytes, hP⟩
    obtain ⟨values, hmany⟩ := (readMany_values _ _ rest').mpr ⟨bytes, rfl, hbytes⟩
    exact ⟨values, rest', readCounted_eq_some.mpr ⟨count, _, rfl, hlen, hmany⟩, hP⟩

end Values

section Bodies

theorem decodeParse_iff (body : Bytes) :
    (∃ msg, decodeParse body = some msg) ↔
      CstringThen (CstringThen (FieldsThen 4 fun _ => True)) body := by
  rw [← readCstring_then not_cstringThen_nil, ← readCstring_then (not_fieldsThen_nil 4),
    ← readCounted_fixed readU32_fixed]
  simp only [decodeParse]
  constructor
  · rintro ⟨msg, hmsg⟩
    obtain ⟨⟨types, rest⟩, hread, -⟩ := Option.bind_eq_some_iff.mp hmsg
    exact ⟨types, rest, hread, trivial⟩
  · rintro ⟨types, rest, hread, -⟩
    exact ⟨_, by rw [hread]; rfl⟩

theorem decodeBind_iff (body : Bytes) :
    (∃ msg, decodeBind body = some msg) ↔
      CstringThen (CstringThen (FieldsThen 2 (ValuesThen (FieldsThen 2 fun _ => True)))) body := by
  rw [← readCstring_then not_cstringThen_nil, ← readCstring_then (not_fieldsThen_nil 2),
    ← readCounted_fixed readI16_fixed]
  simp only [decodeBind]
  constructor
  · rintro ⟨msg, hmsg⟩
    obtain ⟨⟨formats, rest₁⟩, hformats, hmsg⟩ := Option.bind_eq_some_iff.mp hmsg
    obtain ⟨⟨values, rest₂⟩, hvalues, hmsg⟩ := Option.bind_eq_some_iff.mp hmsg
    obtain ⟨⟨results, rest₃⟩, hresults, -⟩ := Option.bind_eq_some_iff.mp hmsg
    refine ⟨formats, rest₁, hformats, (readCounted_values rest₁).mp ⟨values, rest₂, hvalues, ?_⟩⟩
    exact (readCounted_fixed readI16_fixed rest₂).mp ⟨results, rest₃, hresults, trivial⟩
  · rintro ⟨formats, rest₁, hformats, hrest₁⟩
    obtain ⟨values, rest₂, hvalues, hrest₂⟩ := (readCounted_values rest₁).mpr hrest₁
    obtain ⟨results, rest₃, hresults, -⟩ := (readCounted_fixed readI16_fixed rest₂).mpr hrest₂
    refine ⟨.bind (readCstring body).1 (readCstring (readCstring body).2).1 formats values results,
      ?_⟩
    rw [hformats, Option.bind_eq_bind, Option.bind_some, hvalues, Option.bind_eq_bind,
      Option.bind_some, hresults]
    rfl

theorem decodeExecute_iff (body : Bytes) :
    (∃ msg, decodeExecute body = some msg) ↔
      CstringThen (fun rest => 4 ≤ rest.length) body := by
  rw [← readCstring_then (by simp)]
  simp only [decodeExecute]
  constructor
  · rintro ⟨msg, hmsg⟩
    obtain ⟨⟨maxRows, rest⟩, hread, -⟩ := Option.bind_eq_some_iff.mp hmsg
    exact ((readI32_fixed _ rest).mp ⟨maxRows, hread⟩).1
  · intro hle
    obtain ⟨maxRows, hread⟩ := (readI32_fixed _ _).mpr ⟨hle, rfl⟩
    exact ⟨_, by rw [hread]; rfl⟩

theorem decodeNamed_iff (body : Bytes) : (∃ named, decodeNamed body = some named) ↔ body ≠ [] := by
  cases body with
  | nil => simp [decodeNamed]
  | cons kind name => simp [decodeNamed]

theorem exists_map_some {α β : Type} (o : Option α) (f : α → β) :
    (∃ b, o.map f = some b) ↔ ∃ a, o = some a := by
  cases o <;> simp

theorem decodeBody_iff (msgType : UInt8) (body : Bytes) :
    (∃ msg, decodeBody msgType body = some msg) ↔ WellCounted msgType body := by
  by_cases hparse : msgType = 0x50
  · subst hparse
    exact (exists_map_some _ _).trans (decodeParse_iff body)
  by_cases hbind : msgType = 0x42
  · subst hbind
    exact (exists_map_some _ _).trans (decodeBind_iff body)
  by_cases hexecute : msgType = 0x45
  · subst hexecute
    exact (exists_map_some _ _).trans (decodeExecute_iff body)
  by_cases hdescribe : msgType = 0x44
  · subst hdescribe
    exact (exists_map_some _ _).trans (decodeNamed_iff body)
  by_cases hclose : msgType = 0x43
  · subst hclose
    exact (exists_map_some _ _).trans (decodeNamed_iff body)
  have hcounted : WellCounted msgType body := by
    simp [WellCounted, hparse, hbind, hexecute, hdescribe, hclose]
  refine iff_of_true ?_ hcounted
  simp only [decodeBody, if_neg hparse, if_neg hbind, if_neg hexecute, if_neg hdescribe,
    if_neg hclose]
  split
  · exact ⟨_, rfl⟩
  · split
    · exact ⟨_, rfl⟩
    · split
      · exact ⟨_, rfl⟩
      · split <;> exact ⟨_, rfl⟩

end Bodies

section Frames

theorem exists_four {bytes : Bytes} (h : bytes.length = 4) :
    ∃ b₀ b₁ b₂ b₃, bytes = [b₀, b₁, b₂, b₃] := by
  rcases bytes with _ | ⟨b₀, _ | ⟨b₁, _ | ⟨b₂, _ | ⟨b₃, _ | ⟨b₄, bytes⟩⟩⟩⟩⟩ <;> simp at h
  exact ⟨b₀, b₁, b₂, b₃, rfl⟩

/-- One round of the loop. -/
theorem decodeFrom_message (fuel pos : Nat) (msgType : UInt8) {length : Bytes}
    (hlen : length.length = 4) (rest : Bytes) :
    decodeFrom (fuel + 1) pos (msgType :: (length ++ rest)) =
      if lengthField length < 4 then some []
      else if 2 ^ 64 ≤ pos + 1 + lengthField length then none
      else if pos + 5 + rest.length < pos + 1 + lengthField length then some []
      else
        (decodeBody msgType (rest.take (lengthField length - 4))).bind fun msg =>
          (decodeFrom fuel (pos + 1 + lengthField length)
            (rest.drop (lengthField length - 4))).bind fun messages =>
              some (msg.toList ++ messages) := by
  obtain ⟨b₀, b₁, b₂, b₃, rfl⟩ := exists_four hlen
  have hroom : ¬(msgType :: ([b₀, b₁, b₂, b₃] ++ rest)).length < 4 := by
    simp only [List.length_cons, List.length_append]
    omega
  simp only [decodeFrom, if_neg hroom]
  rfl

/-- A buffer with at least five bytes has a type and a length field. -/
theorem exists_header {rest : Bytes} (h : 5 ≤ rest.length) :
    ∃ msgType length rest', rest = msgType :: (length ++ rest') ∧ length.length = 4 := by
  cases rest with
  | nil => simp at h
  | cons msgType rest =>
      rw [List.length_cons] at h
      exact ⟨msgType, rest.take 4, rest.drop 4, by rw [List.take_append_drop],
        by rw [List.length_take]; omega⟩

theorem header_injective {msgType msgType' : UInt8} {length length' rest rest' : Bytes}
    (hlen : length.length = 4) (hlen' : length'.length = 4)
    (h : msgType :: (length ++ rest) = msgType' :: (length' ++ rest')) :
    msgType = msgType' ∧ length = length' ∧ rest = rest' := by
  obtain ⟨htype, htail⟩ := List.cons.inj h
  exact ⟨htype, List.append_inj htail (by rw [hlen, hlen'])⟩

theorem decodeFrom_short (fuel pos : Nat) {rest : Bytes} (h : rest.length < 4) :
    decodeFrom (fuel + 1) pos rest = some [] := by
  simp only [decodeFrom, if_pos h]

/-- The byte after the fourth is read when it is not there. -/
theorem decodeFrom_four (fuel pos : Nat) {rest : Bytes} (h : rest.length = 4) :
    decodeFrom fuel pos rest = none := by
  obtain ⟨b₀, b₁, b₂, b₃, rfl⟩ := exists_four h
  cases fuel <;> rfl

theorem not_decodable_four {pos : Nat} {rest : Bytes} (h : rest.length = 4) :
    ¬Decodable pos rest := by
  intro hdec
  cases hdec with
  | short hshort => omega
  | stopped hlen =>
      simp only [List.length_cons, List.length_append] at h
      omega
  | message hlen =>
      simp only [List.length_cons, List.length_append] at h
      omega

/-- With a length that ends the loop, the rest is left alone unless the end of
the message overflows. -/
theorem decodable_stopped_iff {pos : Nat} {msgType : UInt8} {length rest : Bytes}
    (hlen : length.length = 4)
    (hstop : lengthField length < 4 ∨ 4 + rest.length < lengthField length) :
    Decodable pos (msgType :: (length ++ rest)) ↔
      lengthField length < 4 ∨ pos + 1 + lengthField length < 2 ^ 64 := by
  constructor
  · intro hdec
    generalize hbytes : msgType :: (length ++ rest) = bytes at hdec
    cases hdec with
    | short hshort =>
        have := congrArg List.length hbytes
        simp only [List.length_cons, List.length_append] at this
        omega
    | stopped hlen' hstop' =>
        obtain ⟨-, rfl, rfl⟩ := header_injective hlen hlen' hbytes
        exact hstop'.imp_right And.right
    | message hlen' hlength =>
        obtain ⟨-, rfl, rfl⟩ := header_injective hlen hlen' hbytes
        rw [List.length_append] at hstop
        omega
  · intro h
    refine .stopped hlen ?_
    omega

/-- A message that is there needs a well-counted body and a decodable rest. -/
theorem decodable_message_iff {pos : Nat} {msgType : UInt8} {length body rest : Bytes}
    (hlen : length.length = 4) (hlength : lengthField length = 4 + body.length) :
    Decodable pos (msgType :: (length ++ (body ++ rest))) ↔
      WellCounted msgType body ∧ Decodable (pos + 5 + body.length) rest := by
  constructor
  · intro hdec
    generalize hbytes : msgType :: (length ++ (body ++ rest)) = bytes at hdec
    cases hdec with
    | short hshort =>
        have := congrArg List.length hbytes
        simp only [List.length_cons, List.length_append] at this
        omega
    | stopped hlen' hstop =>
        obtain ⟨-, rfl, rfl⟩ := header_injective hlen hlen' hbytes
        rw [List.length_append] at hstop
        omega
    | message hlen' hlength' hbody hrest =>
        obtain ⟨rfl, rfl, happend⟩ := header_injective hlen hlen' hbytes
        obtain ⟨rfl, rfl⟩ := List.append_inj happend (by omega)
        exact ⟨hbody, hrest⟩
  · rintro ⟨hbody, hrest⟩
    exact .message hlen hlength hbody hrest

theorem decodeFrom_iff (fuel pos : Nat) (rest : Bytes) (hfuel : rest.length < fuel)
    (hend : pos + rest.length < 2 ^ 63) :
    (∃ messages, decodeFrom fuel pos rest = some messages) ↔ Decodable pos rest := by
  induction fuel generalizing pos rest with
  | zero => omega
  | succ fuel ih =>
      rcases Nat.lt_trichotomy rest.length 4 with hshort | hfour | hlong
      · rw [decodeFrom_short fuel pos hshort]
        exact iff_of_true ⟨[], rfl⟩ (.short hshort)
      · rw [decodeFrom_four (fuel + 1) pos hfour]
        exact iff_of_false (by simp) (not_decodable_four hfour)
      obtain ⟨msgType, length, rest, rfl, hlen⟩ := exists_header hlong
      simp only [List.length_cons, List.length_append] at hfuel hend
      rw [decodeFrom_message fuel pos msgType hlen rest]
      by_cases hstop : lengthField length < 4 ∨ 4 + rest.length < lengthField length
      · rw [decodable_stopped_iff hlen hstop]
        split
        · rename_i hsmall
          exact iff_of_true ⟨[], rfl⟩ (Or.inl hsmall)
        · rename_i hsmall
          split
          · exact iff_of_false (by simp) (by omega)
          · rw [if_pos (by omega)]
            exact iff_of_true ⟨[], rfl⟩ (by omega)
      · obtain ⟨hfour, hthere⟩ := not_or.mp hstop
        rw [if_neg hfour, if_neg (by omega), if_neg (by omega)]
        have hsplit := List.take_append_drop (lengthField length - 4) rest
        have hbody : (rest.take (lengthField length - 4)).length = lengthField length - 4 := by
          rw [List.length_take]
          omega
        generalize rest.take (lengthField length - 4) = body at hsplit hbody ⊢
        generalize rest.drop (lengthField length - 4) = rest' at hsplit ⊢
        subst hsplit
        rw [List.length_append] at hfuel hend
        rw [decodable_message_iff hlen (by omega), ← decodeBody_iff,
          ← ih (pos + 5 + body.length) rest' (by omega) (by omega),
          show pos + 1 + lengthField length = pos + 5 + body.length by omega]
        constructor
        · rintro ⟨messages, hmessages⟩
          obtain ⟨msg, hmsg, hmessages⟩ := Option.bind_eq_some_iff.mp hmessages
          obtain ⟨messages', hrest, -⟩ := Option.bind_eq_some_iff.mp hmessages
          exact ⟨⟨msg, hmsg⟩, messages', hrest⟩
        · rintro ⟨⟨msg, hmsg⟩, messages, hrest⟩
          exact ⟨msg.toList ++ messages, by rw [hmsg, Option.bind_some, hrest, Option.bind_some]⟩

end Frames

/-- The decoder returns exactly on the byte strings of the grammar.  A slice has
at most `isize::MAX` bytes. -/
theorem decode_returns_iff (data : Bytes) (hlen : data.length < 2 ^ 63) :
    (∃ messages, decode data = some messages) ↔ Decodable 0 data :=
  decodeFrom_iff (data.length + 1) 0 data (by omega) (by omega)

theorem decode_returns_iff_sync : ∃ messages, decode [0x53, 0, 0, 0, 4] = some messages := by
  have hbytes : ([0x53, 0, 0, 0, 4] : Bytes) = 0x53 :: ([0, 0, 0, 4] ++ ([] ++ [])) := rfl
  rw [decode_returns_iff _ (by decide), hbytes]
  exact .message rfl rfl (by simp [WellCounted]) (.short (by decide))

/-- Four bytes of a header are indexed as if there were five. -/
theorem decode_truncatedHeader_panics :
    ¬∀ data : Bytes, data.length < 2 ^ 63 → ∃ messages, decode data = some messages := by
  intro h
  obtain ⟨messages, hmessages⟩ := h [0x51, 0, 0, 0] (by decide)
  have hnone : decode [0x51, 0, 0, 0] = none := rfl
  rw [hnone] at hmessages
  cases hmessages

end PostgressRs.Protocol.DecodeTotality
