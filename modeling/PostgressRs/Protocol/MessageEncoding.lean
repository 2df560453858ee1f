import PostgressRs.Protocol.Backend
import PostgressRs.Protocol.DecodeTotality

/-!
The bytes that a client sends for a message, and what the decoder makes of them.
-/

namespace PostgressRs.Protocol.MessageEncoding

open PostgressRs.Lib.ByteBuffer
open PostgressRs.Lib.Utf8
open PostgressRs.Protocol.Backend
open PostgressRs.Protocol.DecodeTotality
open PostgressRs.Protocol.Frontend

section Encoding

/-- The type byte; a startup message has none. -/
def messageType : Message → UInt8
  | .startupMessage _ _ => 0
  | .query _ => 0x51
  | .parse _ _ _ => 0x50
  | .bind _ _ _ _ _ => 0x42
  | .describe _ _ => 0x44
  | .execute _ _ => 0x45
  | .sync => 0x53
  | .close _ _ => 0x43
  | .flush => 0x48
  | .terminate => 0x58

def messageBody : Message → Bytes
  | .startupMessage protocolVersion parameters =>
      toBeBytes 4 protocolVersion.toNat ++
        parameters.flatMap (fun entry => cstring entry.1 ++ cstring entry.2) ++ [0]
  | .query sql => cstring sql
  | .parse name sql parameterTypes =>
      cstring name ++ (cstring sql ++
        counted (fun oid : UInt32 => toBeBytes 4 oid.toNat) parameterTypes)
  | .bind portal statement parameterFormats parameterValues resultFormats =>
      cstring portal ++ (cstring statement ++ (counted encodeInt16 parameterFormats ++
        (counted encodeValue parameterValues ++ counted encodeInt16 resultFormats)))
  | .describe kind name => kind :: cstring name
  | .execute portal maxRows => cstring portal ++ encodeInt32 maxRows
  | .sync => []
  | .close kind name => kind :: cstring name
  | .flush => []
  | .terminate => []

def isStartup : Message → Bool
  | .startupMessage _ _ => true
  | _ => false

/-- The type, a length that counts itself, and the body. -/
def encode (m : Message) : Bytes :=
  let framed := toBeBytes 4 ((messageBody m).length + 4) ++ messageBody m
  if isStartup m then framed else messageType m :: framed

def NulFree (s : String) : Prop := 0 ∉ asBytes s

/-- Texts have no zero bytes, and counts and lengths fit into their fields. -/
structure WellFormed (m : Message) : Prop where
  texts : match m with
    | .startupMessage _ parameters => ∀ entry ∈ parameters, NulFree entry.1 ∧ NulFree entry.2
    | .query sql => NulFree sql
    | .parse name sql _ => NulFree name ∧ NulFree sql
    | .bind portal statement _ _ _ => NulFree portal ∧ NulFree statement
    | .describe _ name => NulFree name
    | .execute portal _ => NulFree portal
    | .close _ name => NulFree name
    | _ => True
  counts : match m with
    | .parse _ _ parameterTypes => parameterTypes.length < 2 ^ 16
    | .bind _ _ parameterFormats parameterValues resultFormats =>
        parameterFormats.length < 2 ^ 16 ∧ parameterValues.length < 2 ^ 16 ∧
          resultFormats.length < 2 ^ 16
    | _ => True
  length_lt : (messageBody m).length + 4 < 2 ^ 31

end Encoding

section RoundTrip

theorem readU16_toBeBytes {n : Nat} (hn : n < 2 ^ 16) (rest : Bytes) :
    readU16 (toBeBytes 2 n ++ rest) = some (UInt16.ofNat n, rest) := by
  have htake : takeBytes 2 (toBeBytes 2 n ++ rest) = some (toBeBytes 2 n, rest) :=
    takeBytes_eq_some.mpr ⟨rfl, toBeBytes_length 2 n⟩
  simp only [readU16, htake, Option.bind_eq_bind, Option.bind_some,
    fromBeBytes_toBeBytes 2 n hn, Option.pure_def]

theorem readU32_toBeBytes {n : Nat} (hn : n < 2 ^ 32) (rest : Bytes) :
    readU32 (toBeBytes 4 n ++ rest) = some (UInt32.ofNat n, rest) := by
  have htake : takeBytes 4 (toBeBytes 4 n ++ rest) = some (toBeBytes 4 n, rest) :=
    takeBytes_eq_some.mpr ⟨rfl, toBeBytes_length 4 n⟩
  simp only [readU32, htake, Option.bind_eq_bind, Option.bind_some,
    fromBeBytes_toBeBytes 4 n hn, Option.pure_def]

theorem readU32_encoded (oid : UInt32) (rest : Bytes) :
    readU32 (toBeBytes 4 oid.toNat ++ rest) = some (oid, rest) := by
  rw [readU32_toBeBytes oid.toNat_lt, UInt32.ofNat_toNat]

theorem readI16_encoded (value : Int16) (rest : Bytes) :
    readI16 (encodeInt16 value ++ rest) = some (value, rest) := by
  simp only [readI16, encodeInt16, readU16_toBeBytes value.toUInt16.toNat_lt, Option.bind_eq_bind,
    Option.bind_some, UInt16.ofNat_toNat, Option.pure_def]
  rfl

theorem readI32_encoded (value : Int32) (rest : Bytes) :
    readI32 (encodeInt32 value ++ rest) = some (value, rest) := by
  simp only [readI32, encodeInt32, readU32_toBeBytes value.toUInt32.toNat_lt, Option.bind_eq_bind,
    Option.bind_some, UInt32.ofNat_toNat, Option.pure_def]
  rfl

theorem readValue_encoded {value : Option Bytes} (hvalue : ∀ bytes ∈ value, bytes.length < 2 ^ 31)
    (rest : Bytes) : readValue (encodeValue value ++ rest) = some (value, rest) := by
  cases value with
  | none => rfl
  | some bytes =>
      have hsmall : bytes.length < 2 ^ 31 := hvalue bytes rfl
      have hword : fromBeBytes (toBeBytes 4 bytes.length) = bytes.length :=
        fromBeBytes_toBeBytes 4 _ (by omega)
      obtain ⟨-, hneg, hnat⟩ := length_word (toBeBytes_length 4 bytes.length)
      rw [hword] at hneg hnat
      have hpos : ¬(UInt32.ofNat bytes.length).toInt32 < 0 := by
        rw [hneg]
        omega
      have hnotNull : (UInt32.ofNat bytes.length).toInt32 ≠ -1 := by
        intro h
        exact hpos (by rw [h]; decide)
      have hlength : readI32 (toBeBytes 4 bytes.length ++ (bytes ++ rest)) =
          some ((UInt32.ofNat bytes.length).toInt32, bytes ++ rest) := by
        simp only [readI32, readU32_toBeBytes (by omega : bytes.length < 2 ^ 32),
          Option.bind_eq_bind, Option.bind_some, Option.pure_def]
      rw [encodeValue, List.append_assoc, readValue, hlength]
      simp only [Option.bind_eq_bind, Option.bind_some, if_neg hnotNull, if_neg hpos,
        hnat hsmall, takeBytes_append]
      rfl

theorem readMany_encoded {α : Type} {readOne : Bytes → Option (α × Bytes)}
    {encodeOne : α → Bytes} {values : List α}
    (h : ∀ value ∈ values, ∀ rest, readOne (encodeOne value ++ rest) = some (value, rest))
    (rest : Bytes) :
    readMany readOne values.length (values.flatMap encodeOne ++ rest) = some (values, rest) := by
  induction values with
  | nil => rfl
  | cons value values ih =>
      have hrest := ih fun value' hvalue' => h value' (List.mem_cons_of_mem _ hvalue')
      rw [List.flatMap_cons, List.append_assoc, List.length_cons, readMany,
        h value List.mem_cons_self]
      simp only [Option.bind_eq_bind, Option.bind_some, hrest]
      rfl

theorem readCounted_encoded {α : Type} {readOne : Bytes → Option (α × Bytes)}
    {encodeOne : α → Bytes} {values : List α} (hcount : values.length < 2 ^ 16)
    (h : ∀ value ∈ values, ∀ rest, readOne (encodeOne value ++ rest) = some (value, rest))
    (rest : Bytes) :
    readCounted readOne (counted encodeOne values ++ rest) = some (values, rest) := by
  have hlen : (UInt16.ofNat values.length).toNat = values.length :=
    UInt16.toNat_ofNat_of_lt' hcount
  rw [counted, List.append_assoc, readCounted, readU16_toBeBytes hcount]
  simp only [Option.bind_eq_bind, Option.bind_some, hlen]
  exact readMany_encoded h rest

theorem readCstring_cstring {s : String} (h : NulFree s) (rest : Bytes) :
    readCstring (cstring s ++ rest) = (s, rest) := by
  rw [cstring, List.append_assoc, List.singleton_append, readCstring_append h,
    fromUtf8Lossy_asBytes]

/-- A text without zero bytes has no zero characters. -/
theorem not_mem_toList {s : String} (h : NulFree s) : Char.ofNat 0 ∉ s.toList := by
  intro hmem
  apply h
  rw [asBytes_eq, List.mem_flatMap]
  exact ⟨Char.ofNat 0, hmem, by decide⟩

theorem fromUtf8Lossy_cstring (s : String) :
    fromUtf8Lossy (cstring s) = String.ofList (s.toList ++ [Char.ofNat 0]) := by
  have hbytes : cstring s = (s.toList ++ [Char.ofNat 0]).flatMap String.utf8EncodeChar := by
    rw [cstring, asBytes_eq, List.flatMap_append]
    rfl
  rw [hbytes, fromUtf8Lossy_encoded]

theorem trimmedText_cstring {s : String} (h : NulFree s) : trimmedText (cstring s) = s := by
  have hnot := not_mem_toList h
  rw [trimmedText, fromUtf8Lossy_cstring, String.toList_ofList, List.reverse_append]
  have hdrop : (s.toList.reverse).dropWhile (· = '\x00') = s.toList.reverse := by
    rw [List.dropWhile_eq_self_iff]
    intro hlen hzero
    apply hnot
    have hmem := List.getElem_mem (l := s.toList.reverse) hlen
    rw [List.mem_reverse] at hmem
    simp only [decide_eq_true_eq] at hzero
    rw [hzero] at hmem
    exact hmem
  simp only [List.reverse_singleton, List.singleton_append]
  rw [List.dropWhile_cons_of_pos (by decide), hdrop, List.reverse_reverse, String.ofList_toList]

theorem length_le_flatMap {α : Type} {encodeOne : α → Bytes} {values : List α} {value : α}
    (h : value ∈ values) : (encodeOne value).length ≤ (values.flatMap encodeOne).length := by
  obtain ⟨before, after, rfl⟩ := List.append_of_mem h
  rw [List.flatMap_append, List.flatMap_cons, List.length_append, List.length_append]
  omega

/-- A parameter value is part of its message. -/
theorem length_le_messageBody (portal statement : String) (parameterFormats : List Int16)
    {parameterValues : List (Option Bytes)} (resultFormats : List Int16) {value : Option Bytes}
    (hvalue : value ∈ parameterValues) {bytes : Bytes} (hbytes : bytes ∈ value) :
    bytes.length ≤ (messageBody (.bind portal statement parameterFormats parameterValues
      resultFormats)).length := by
  have hle : (encodeValue value).length ≤ (parameterValues.flatMap encodeValue).length :=
    length_le_flatMap hvalue
  cases hbytes
  simp only [encodeValue, List.length_append] at hle
  simp only [messageBody, counted, List.length_append]
  omega

/-- The decoder reads back what a client sends. -/
theorem decodeBody_encoded {m : Message} (hm : WellFormed m) (hstartup : isStartup m = false) :
    decodeBody (messageType m) (messageBody m) = some (some m) := by
  cases m with
  | startupMessage protocolVersion parameters => cases hstartup
  | query sql =>
      simp only [messageType, messageBody, decodeBody, if_true, trimmedText_cstring hm.texts]
  | parse name sql parameterTypes =>
      obtain ⟨hname, hsql⟩ := hm.texts
      have hread := readCounted_encoded hm.counts (fun oid _ rest => readU32_encoded oid rest) []
      rw [List.append_nil] at hread
      have hdecode : decodeParse (messageBody (.parse name sql parameterTypes)) =
          some (.parse name sql parameterTypes) := by
        simp only [decodeParse, messageBody, readCstring_cstring hname, readCstring_cstring hsql,
          hread, Option.bind_eq_bind, Option.bind_some]
        rfl
      simp only [messageType, decodeBody, hdecode]
      rfl
  | bind portal statement parameterFormats parameterValues resultFormats =>
      obtain ⟨hportal, hstatement⟩ := hm.texts
      obtain ⟨hformats, hvalues, hresults⟩ := hm.counts
      have hsmall : ∀ value ∈ parameterValues, ∀ bytes ∈ value, bytes.length < 2 ^ 31 := by
        intro value hvalue bytes hbytes
        have hlt := hm.length_lt
        have hle := length_le_messageBody portal statement parameterFormats resultFormats hvalue
          hbytes
        omega
      have hread := readCounted_encoded hresults (fun value _ rest => readI16_encoded value rest) []
      rw [List.append_nil] at hread
      have hdecode : decodeBind (messageBody (.bind portal statement parameterFormats
          parameterValues resultFormats)) =
            some (.bind portal statement parameterFormats parameterValues resultFormats) := by
        simp only [decodeBind, messageBody, readCstring_cstring hportal,
          readCstring_cstring hstatement, Option.bind_eq_bind,
          readCounted_encoded hformats (fun value _ rest => readI16_encoded value rest),
          readCounted_encoded hvalues
            (fun value hvalue rest => readValue_encoded (hsmall value hvalue) rest),
          hread, Option.bind_some]
        rfl
      simp only [messageType, decodeBody, hdecode]
      rfl
  | describe kind name =>
      simp only [messageType, messageBody, decodeBody, decodeNamed, trimmedText_cstring hm.texts]
      rfl
  | execute portal maxRows =>
      have hread := readI32_encoded maxRows []
      rw [List.append_nil] at hread
      have hdecode : decodeExecute (messageBody (.execute portal maxRows)) =
          some (.execute portal maxRows) := by
        simp only [decodeExecute, messageBody, readCstring_cstring hm.texts, hread,
          Option.bind_eq_bind, Option.bind_some]
        rfl
      simp only [messageType, decodeBody, hdecode]
      rfl
  | sync => rfl
  | close kind name =>
      simp only [messageType, messageBody, decodeBody, decodeNamed, trimmedText_cstring hm.texts]
      rfl
  | flush => rfl
  | terminate => rfl

end RoundTrip

section Sizes

/-- What is read takes up as many bytes as its encoding. -/
def ReadsSize {α : Type} (readOne : Bytes → Option (α × Bytes)) (encodeOne : α → Bytes) : Prop :=
  ∀ rest value rest', readOne rest = some (value, rest') →
    rest.length = (encodeOne value).length + rest'.length

theorem ReadsFixed.size {α : Type} {readOne : Bytes → Option (α × Bytes)} {width : Nat}
    {encodeOne : α → Bytes} (h : ReadsFixed readOne width)
    (hwidth : ∀ value, (encodeOne value).length = width) : ReadsSize readOne encodeOne := by
  intro rest value rest' hread
  obtain ⟨hle, rfl⟩ := (h rest rest').mp ⟨value, hread⟩
  rw [hwidth, List.length_drop]
  omega

theorem readValue_size : ReadsSize readValue encodeValue := by
  intro rest value rest' hread
  obtain ⟨⟨len, rest₁⟩, hlength, hvalue⟩ := Option.bind_eq_some_iff.mp hread
  obtain ⟨hle, rfl⟩ := (readI32_fixed rest rest₁).mp ⟨len, hlength⟩
  dsimp only at hvalue
  split at hvalue
  · cases hvalue
    simp only [encodeValue, List.length_cons, List.length_nil, List.length_drop]
    omega
  · split at hvalue
    · cases hvalue
    · obtain ⟨⟨bytes, rest₂⟩, htake, heq⟩ := Option.bind_eq_some_iff.mp hvalue
      cases heq
      obtain ⟨hsplit, -⟩ := takeBytes_eq_some.mp htake
      have hlen := congrArg List.length hsplit
      rw [List.length_drop, List.length_append] at hlen
      simp only [encodeValue, List.length_append, toBeBytes_length]
      omega

theorem ReadsSize.many {α : Type} {readOne : Bytes → Option (α × Bytes)} {encodeOne : α → Bytes}
    (h : ReadsSize readOne encodeOne) {count : Nat} {rest rest' : Bytes} {values : List α}
    (hread : readMany readOne count rest = some (values, rest')) :
    rest.length = (values.flatMap encodeOne).length + rest'.length := by
  induction count generalizing rest values with
  | zero =>
      cases hread
      simp
  | succ count ih =>
      obtain ⟨⟨value, rest₁⟩, hone, hmany⟩ := Option.bind_eq_some_iff.mp hread
      obtain ⟨⟨values', rest₂⟩, hrest, heq⟩ := Option.bind_eq_some_iff.mp hmany
      cases heq
      have hfirst := h rest value rest₁ hone
      have hothers := ih hrest
      rw [List.flatMap_cons, List.length_append]
      omega

theorem ReadsSize.counted {α : Type} {readOne : Bytes → Option (α × Bytes)}
    {encodeOne : α → Bytes} (h : ReadsSize readOne encodeOne) :
    ReadsSize (readCounted readOne) (Backend.counted encodeOne) := by
  intro rest values rest' hread
  obtain ⟨count, rest₁, rfl, hlen, hmany⟩ := readCounted_eq_some.mp hread
  have hsize := h.many hmany
  rw [Backend.counted, List.length_append, List.length_append, toBeBytes_length, hlen]
  omega

theorem readU32_size : ReadsSize readU32 fun oid : UInt32 => toBeBytes 4 oid.toNat :=
  ReadsFixed.size readU32_fixed fun _ => toBeBytes_length 4 _

theorem readI16_size : ReadsSize readI16 encodeInt16 :=
  ReadsFixed.size readI16_fixed fun _ => toBeBytes_length 2 _

/-- A text that is followed by something. -/
theorem readCstring_eq {bytes rest : Bytes} {s : String} (h : readCstring bytes = (s, rest))
    (hrest : rest ≠ []) : ∃ text, bytes = text ++ 0 :: rest ∧ fromUtf8Lossy text = s := by
  rcases readCstring_cases bytes with ⟨text, rest', rfl, hnot⟩ | hnil
  · rw [readCstring_append hnot] at h
    cases h
    exact ⟨text, rfl, rfl⟩
  · rw [h] at hnil
    exact absurd hnil hrest

/-- Two texts and at least `size` bytes behind them. -/
def TwoTexts (first second : String) (size : Nat) (body : Bytes) : Prop :=
  ∃ text₁ text₂ rest, body = text₁ ++ 0 :: (text₂ ++ 0 :: rest) ∧ fromUtf8Lossy text₁ = first ∧
    fromUtf8Lossy text₂ = second ∧ size ≤ rest.length

/-- What the fields of a decoded message say about its body. -/
def Decoded (body : Bytes) : Message → Prop
  | .startupMessage _ _ => False
  | .query sql => sql = trimmedText body
  | .parse name sql parameterTypes =>
      TwoTexts name sql
        (counted (fun oid : UInt32 => toBeBytes 4 oid.toNat) parameterTypes).length body
  | .bind portal statement parameterFormats parameterValues resultFormats =>
      TwoTexts portal statement (counted encodeInt16 parameterFormats ++
        (counted encodeValue parameterValues ++ counted encodeInt16 resultFormats)).length body
  | .describe kind name => ∃ rest, body = kind :: rest ∧ name = trimmedText rest
  | .execute portal _ => ∃ text rest, body = text ++ 0 :: rest ∧ fromUtf8Lossy text = portal ∧
      4 ≤ rest.length
  | .close kind name => ∃ rest, body = kind :: rest ∧ name = trimmedText rest
  | _ => True

theorem twoTexts_of_size {body : Bytes} {size : Nat} (hpos : 0 < size)
    (h : size ≤ (readCstring (readCstring body).2).2.length) :
    TwoTexts (readCstring body).1 (readCstring (readCstring body).2).1 size body := by
  have hrest : (readCstring (readCstring body).2).2 ≠ [] := by
    intro hnil
    rw [hnil, List.length_nil] at h
    omega
  obtain ⟨text₂, hsecond, htext₂⟩ := readCstring_eq (Prod.eta _).symm hrest
  have hrest₁ : (readCstring body).2 ≠ [] := by
    rw [hsecond]
    simp
  obtain ⟨text₁, hfirst, htext₁⟩ := readCstring_eq (Prod.eta _).symm hrest₁
  refine ⟨text₁, text₂, _, ?_, htext₁, htext₂, h⟩
  rw [← hsecond]
  exact hfirst

theorem two_le_counted {α : Type} (encodeOne : α → Bytes) (values : List α) :
    2 ≤ (counted encodeOne values).length := by
  rw [counted, List.length_append, toBeBytes_length]
  omega

theorem decoded_parse {body : Bytes} {m : Message} (h : decodeParse body = some m) :
    Decoded body m ∧ messageType m = 0x50 := by
  change (readCounted readU32 (readCstring (readCstring body).2).2).bind (fun read =>
    some (.parse (readCstring body).1 (readCstring (readCstring body).2).1 read.1)) = some m at h
  obtain ⟨⟨parameterTypes, rest⟩, hread, heq⟩ := Option.bind_eq_some_iff.mp h
  cases heq
  have hsize := readU32_size.counted _ _ _ hread
  have hpos := two_le_counted (fun oid : UInt32 => toBeBytes 4 oid.toNat) parameterTypes
  refine ⟨twoTexts_of_size ?_ ?_, rfl⟩
  · dsimp only
    omega
  · dsimp only
    omega

theorem decoded_bind {body : Bytes} {m : Message} (h : decodeBind body = some m) :
    Decoded body m ∧ messageType m = 0x42 := by
  change (readCounted readI16 (readCstring (readCstring body).2).2).bind (fun formats =>
    (readCounted readValue formats.2).bind fun values =>
      (readCounted readI16 values.2).bind fun results =>
        some (.bind (readCstring body).1 (readCstring (readCstring body).2).1 formats.1 values.1
          results.1)) = some m at h
  obtain ⟨⟨parameterFormats, rest₁⟩, hformats, h⟩ := Option.bind_eq_some_iff.mp h
  obtain ⟨⟨parameterValues, rest₂⟩, hvalues, h⟩ := Option.bind_eq_some_iff.mp h
  obtain ⟨⟨resultFormats, rest₃⟩, hresults, heq⟩ := Option.bind_eq_some_iff.mp h
  cases heq
  have hsize₁ := readI16_size.counted _ _ _ hformats
  have hsize₂ := readValue_size.counted _ _ _ hvalues
  have hsize₃ := readI16_size.counted _ _ _ hresults
  have hpos := two_le_counted encodeInt16 parameterFormats
  refine ⟨twoTexts_of_size ?_ ?_, rfl⟩
  · rw [List.length_append]
    dsimp only
    omega
  · rw [List.length_append, List.length_append]
    dsimp only at hsize₂ hsize₃ ⊢
    omega

theorem decoded_execute {body : Bytes} {m : Message} (h : decodeExecute body = some m) :
    Decoded body m ∧ messageType m = 0x45 := by
  change (readI32 (readCstring body).2).bind (fun read =>
    some (.execute (readCstring body).1 read.1)) = some m at h
  obtain ⟨⟨maxRows, rest⟩, hread, heq⟩ := Option.bind_eq_some_iff.mp h
  cases heq
  obtain ⟨hle, -⟩ := (readI32_fixed _ rest).mp ⟨maxRows, hread⟩
  have hrest : (readCstring body).2 ≠ [] := by
    intro hnil
    rw [hnil, List.length_nil] at hle
    omega
  obtain ⟨text, hbody, htext⟩ := readCstring_eq (Prod.eta _).symm hrest
  exact ⟨⟨text, _, hbody, htext, hle⟩, rfl⟩

theorem decodeNamed_eq_some {body : Bytes} {named : UInt8 × String}
    (h : decodeNamed body = some named) :
    ∃ rest, body = named.1 :: rest ∧ named.2 = trimmedText rest := by
  cases body with
  | nil => cases h
  | cons kind rest =>
      cases h
      exact ⟨rest, rfl, rfl⟩

/-- What the decoder makes of a body has the type of the frame. -/
theorem decodeBody_eq_some {msgType : UInt8} {body : Bytes} {m : Message}
    (h : decodeBody msgType body = some (some m)) : Decoded body m ∧ messageType m = msgType := by
  rw [decodeBody] at h
  by_cases hquery : msgType = 0x51
  · rw [if_pos hquery] at h
    cases h
    exact ⟨rfl, hquery.symm⟩
  rw [if_neg hquery] at h
  by_cases hparse : msgType = 0x50
  · rw [if_pos hparse] at h
    obtain ⟨m', hm', heq⟩ := Option.map_eq_some_iff.mp h
    cases heq
    rw [hparse]
    exact decoded_parse hm'
  rw [if_neg hparse] at h
  by_cases hbind : msgType = 0x42
  · rw [if_pos hbind] at h
    obtain ⟨m', hm', heq⟩ := Option.map_eq_some_iff.mp h
    cases heq
    rw [hbind]
    exact decoded_bind hm'
  rw [if_neg hbind] at h
  by_cases hdescribe : msgType = 0x44
  · rw [if_pos hdescribe] at h
    obtain ⟨named, hnamed, heq⟩ := Option.map_eq_some_iff.mp h
    cases heq
    exact ⟨decodeNamed_eq_some hnamed, hdescribe.symm⟩
  rw [if_neg hdescribe] at h
  by_cases hexecute : msgType = 0x45
  · rw [if_pos hexecute] at h
    obtain ⟨m', hm', heq⟩ := Option.map_eq_some_iff.mp h
    cases heq
    rw [hexecute]
    exact decoded_execute hm'
  rw [if_neg hexecute] at h
  by_cases hsync : msgType = 0x53
  · rw [if_pos hsync] at h
    cases h
    exact ⟨trivial, hsync.symm⟩
  rw [if_neg hsync] at h
  by_cases hclose : msgType = 0x43
  · rw [if_pos hclose] at h
    obtain ⟨named, hnamed, heq⟩ := Option.map_eq_some_iff.mp h
    cases heq
    exact ⟨decodeNamed_eq_some hnamed, hclose.symm⟩
  rw [if_neg hclose] at h
  by_cases hflush : msgType = 0x48
  · rw [if_pos hflush] at h
    cases h
    exact ⟨trivial, hflush.symm⟩
  rw [if_neg hflush] at h
  by_cases hterminate : msgType = 0x58
  · rw [if_pos hterminate] at h
    cases h
    exact ⟨trivial, hterminate.symm⟩
  · rw [if_neg hterminate] at h
    cases h

theorem length_trimmedText (bytes : Bytes) :
    (asBytes (trimmedText bytes)).length ≤ 3 * bytes.length := by
  obtain ⟨zeros, hzeros⟩ : (trimmedText bytes).toList <+: (fromUtf8Lossy bytes).toList := by
    rw [trimmedText, String.toList_ofList]
    exact List.reverse_suffix.mp (by rw [List.reverse_reverse]; exact List.dropWhile_suffix _)
  have hlen := length_fromUtf8Lossy bytes
  rw [asBytes_eq, ← hzeros, List.flatMap_append, List.length_append, ← asBytes_eq] at hlen
  omega

/-- A message is at most three times as long as a body it was decoded from. -/
theorem length_messageBody {body : Bytes} {m : Message} (h : Decoded body m) :
    (messageBody m).length ≤ 3 * body.length + 1 := by
  cases m with
  | startupMessage protocolVersion parameters => exact h.elim
  | query sql =>
      have hlen := length_trimmedText body
      rw [← h] at hlen
      simp only [messageBody, cstring, List.length_append, List.length_singleton]
      omega
  | parse name sql parameterTypes =>
      obtain ⟨text₁, text₂, rest, rfl, rfl, rfl, hsize⟩ := h
      have hlen₁ := length_fromUtf8Lossy text₁
      have hlen₂ := length_fromUtf8Lossy text₂
      simp only [messageBody, cstring, List.length_append, List.length_cons, List.length_nil]
      omega
  | bind portal statement parameterFormats parameterValues resultFormats =>
      obtain ⟨text₁, text₂, rest, rfl, rfl, rfl, hsize⟩ := h
      have hlen₁ := length_fromUtf8Lossy text₁
      have hlen₂ := length_fromUtf8Lossy text₂
      simp only [List.length_append] at hsize
      simp only [messageBody, cstring, List.length_append, List.length_cons, List.length_nil]
      omega
  | describe kind name =>
      obtain ⟨rest, rfl, rfl⟩ := h
      have hlen := length_trimmedText rest
      simp only [messageBody, cstring, List.length_append, List.length_cons, List.length_nil]
      omega
  | execute portal maxRows =>
      obtain ⟨text, rest, rfl, rfl, hsize⟩ := h
      have hlen := length_fromUtf8Lossy text
      simp only [messageBody, cstring, encodeInt32, toBeBytes_length, List.length_append,
        List.length_cons, List.length_nil]
      omega
  | sync => exact Nat.zero_le _
  | close kind name =>
      obtain ⟨rest, rfl, rfl⟩ := h
      have hlen := length_trimmedText rest
      simp only [messageBody, cstring, List.length_append, List.length_cons, List.length_nil]
      omega
  | flush => exact Nat.zero_le _
  | terminate => exact Nat.zero_le _

end Sizes

section Frames

variable {m : Message} {ms : List Message}

/-- A message that can be told apart in a stream. -/
structure Framed (m : Message) : Prop where
  wellFormed : WellFormed m
  typed : isStartup m = false

theorem Framed.encode_eq (h : Framed m) :
    encode m = messageType m :: (toBeBytes 4 ((messageBody m).length + 4) ++ messageBody m) := by
  simp only [encode, h.typed, Bool.false_eq_true, if_false]

theorem Framed.length_encode (h : Framed m) : (encode m).length = (messageBody m).length + 5 := by
  rw [h.encode_eq, List.length_cons, List.length_append, toBeBytes_length]
  omega

theorem lengthField_toBeBytes {n : Nat} (hn : n < 2 ^ 31) : lengthField (toBeBytes 4 n) = n := by
  simp only [lengthField, fromBeBytes_toBeBytes 4 n (by omega), if_pos hn]

/-- The first round of the loop takes the message that is there. -/
theorem decodeFrom_encode (h : Framed m) {fuel pos : Nat} {rest : Bytes}
    (hend : pos + (encode m ++ rest).length < 2 ^ 63) :
    decodeFrom (fuel + 1) pos (encode m ++ rest) =
      (decodeFrom fuel (pos + (encode m).length) rest).map (m :: ·) := by
  have hlen := h.length_encode
  rw [List.length_append] at hend
  have hfield := lengthField_toBeBytes h.wellFormed.length_lt
  rw [h.encode_eq, List.cons_append, List.append_assoc,
    decodeFrom_message fuel pos _ (toBeBytes_length 4 _), hfield, List.length_append,
    if_neg (by omega), if_neg (by omega), if_neg (by omega), Nat.add_sub_cancel, List.take_left,
    List.drop_left, decodeBody_encoded h.wellFormed h.typed, Option.bind_some, ← h.encode_eq, hlen,
    show pos + 1 + ((messageBody m).length + 4) = pos + ((messageBody m).length + 5) by omega]
  cases decodeFrom fuel (pos + ((messageBody m).length + 5)) rest with
  | none => rfl
  | some messages => rfl

/-- The bytes of a sequence of messages. -/
def encodeAll (ms : List Message) : Bytes := ms.flatMap encode

theorem encodeAll_cons (m : Message) (ms : List Message) :
    encodeAll (m :: ms) = encode m ++ encodeAll ms :=
  List.flatMap_cons

theorem decodeFrom_encodeAll (h : ∀ m ∈ ms, Framed m) {fuel pos : Nat} {rest : Bytes}
    (hend : pos + (encodeAll ms ++ rest).length < 2 ^ 63) :
    decodeFrom (fuel + ms.length) pos (encodeAll ms ++ rest) =
      (decodeFrom fuel (pos + (encodeAll ms).length) rest).map (ms ++ ·) := by
  induction ms generalizing pos with
  | nil =>
      simp only [encodeAll, List.flatMap_nil, List.nil_append, List.length_nil, Nat.add_zero]
      exact Option.map_id'.symm
  | cons m ms ih =>
      rw [encodeAll_cons, List.append_assoc] at hend ⊢
      rw [List.length_cons, ← Nat.add_assoc, decodeFrom_encode (h m List.mem_cons_self) hend,
        ih fun m' hm' => h m' (List.mem_cons_of_mem _ hm')]
      · rw [Option.map_map, List.length_append, Nat.add_assoc]
        rfl
      · rw [List.length_append] at hend
        omega

theorem length_le_encodeAll (h : ∀ m ∈ ms, Framed m) : ms.length ≤ (encodeAll ms).length := by
  induction ms with
  | nil => exact Nat.zero_le _
  | cons m ms ih =>
      have hm := (h m List.mem_cons_self).length_encode
      have htail := ih fun m' hm' => h m' (List.mem_cons_of_mem _ hm')
      rw [encodeAll_cons, List.length_append, List.length_cons]
      omega

/-- What is decoded from messages and a part behind them. -/
theorem decode_encodeAll (h : ∀ m ∈ ms, Framed m) {rest : Bytes}
    (hend : (encodeAll ms ++ rest).length < 2 ^ 63) :
    ∃ fuel, rest.length < fuel ∧ decode (encodeAll ms ++ rest) =
      (decodeFrom fuel (encodeAll ms).length rest).map (ms ++ ·) := by
  have hle := length_le_encodeAll h
  refine ⟨(encodeAll ms ++ rest).length + 1 - ms.length, ?_, ?_⟩
  · rw [List.length_append]
    omega
  · have hsplit : (encodeAll ms ++ rest).length + 1 =
        (encodeAll ms ++ rest).length + 1 - ms.length + ms.length := by
      rw [List.length_append]
      omega
    rw [decode, hsplit, decodeFrom_encodeAll h (by rw [Nat.zero_add]; exact hend), Nat.zero_add,
      Nat.add_sub_cancel]

end Frames

/-- Decoding inverts the encoding of any sequence of messages.  A slice has at most
`isize::MAX` bytes. -/
theorem decode_inverts_encoding {ms : List Message} (h : ∀ m ∈ ms, WellFormed m)
    (htyped : ∀ m ∈ ms, isStartup m = false) (hlen : (encodeAll ms).length < 2 ^ 63) :
    decode (encodeAll ms) = some ms := by
  have hend : (encodeAll ms ++ []).length < 2 ^ 63 := by
    rw [List.append_nil]
    exact hlen
  obtain ⟨fuel, hfuel, hdecode⟩ :=
    decode_encodeAll (fun m hm => ⟨h m hm, htyped m hm⟩) hend
  obtain ⟨fuel, rfl⟩ : ∃ fuel', fuel = fuel' + 1 := ⟨fuel - 1, by omega⟩
  rw [List.append_nil, decodeFrom_short fuel _ (by decide), Option.map_some, List.append_nil]
    at hdecode
  exact hdecode

/-- The bytes of a `Bind` with a null and an empty value, and of a `Sync`. -/
theorem decode_inverts_encoding_bind :
    decode (encodeAll [.bind "" "" [] [none, some []] [1], .sync]) =
      some [.bind "" "" [] [none, some []] [1], .sync] := by
  have hbind : WellFormed (.bind "" "" [] [none, some []] [1]) := by
    refine ⟨by simp [NulFree], by simp, ?_⟩
    simp [messageBody, cstring, counted, encodeValue, encodeInt16]
  have hsync : WellFormed .sync := ⟨trivial, trivial, by decide⟩
  refine decode_inverts_encoding ?_ ?_ ?_
  · simp [hbind, hsync]
  · simp [isStartup]
  · simp [encodeAll, encode, isStartup, messageBody, cstring, counted, encodeValue, encodeInt16]

end PostgressRs.Protocol.MessageEncoding
