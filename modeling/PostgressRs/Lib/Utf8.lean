import PostgressRs.Lib.ByteBuffer

/-!
Rust's conversions between byte slices and strings.
-/

namespace PostgressRs.Lib.Utf8

open PostgressRs.Lib.ByteBuffer

/-- `s.as_bytes()`. -/
def asBytes (s : String) : Bytes := s.toByteArray.data.toList

/-- `std::str::from_utf8(bytes).ok()`. -/
def fromUtf8 (bytes : Bytes) : Option String := String.fromUTF8? ⟨bytes.toArray⟩

theorem fromUtf8_asBytes (s : String) : fromUtf8 (asBytes s) = some s := by
  have hbytes : (⟨(asBytes s).toArray⟩ : ByteArray) = s.toByteArray := by
    simp [asBytes]
  have hvalid : ByteArray.IsValidUTF8 s.toByteArray := s.isValidUTF8
  rw [fromUtf8, hbytes, String.fromUTF8?, dif_pos hvalid]
  rfl

@[simp] theorem asBytes_empty : asBytes "" = [] := by
  simp [asBytes]

/-- The bytes of a repeated one-byte character. -/
theorem asBytes_replicate (n : Nat) (char : Char) (byte : UInt8)
    (h : String.utf8EncodeChar char = [byte]) :
    asBytes (String.ofList (List.replicate n char)) = List.replicate n byte := by
  simp only [asBytes, String.toByteArray_ofList, List.utf8Encode, List.flatMap_replicate, h]
  simp

/-- For a lead byte: the number of continuation bytes and the range of the first
of them. -/
def leadByte (byte : UInt8) : Option (Nat × UInt8 × UInt8) :=
  if byte < 0x80 then some (0, 0x80, 0xBF)
  else if 0xC2 ≤ byte ∧ byte ≤ 0xDF then some (1, 0x80, 0xBF)
  else if byte = 0xE0 then some (2, 0xA0, 0xBF)
  else if byte = 0xED then some (2, 0x80, 0x9F)
  else if 0xE1 ≤ byte ∧ byte ≤ 0xEF then some (2, 0x80, 0xBF)
  else if byte = 0xF0 then some (3, 0x90, 0xBF)
  else if 0xF1 ≤ byte ∧ byte ≤ 0xF3 then some (3, 0x80, 0xBF)
  else if byte = 0xF4 then some (3, 0x80, 0x8F)
  else none

/-- The longest run of at most `count` continuation bytes. -/
def continuation : Nat → UInt8 → UInt8 → Bytes → Bytes
  | count + 1, low, high, byte :: bytes =>
      if low ≤ byte ∧ byte ≤ high then byte :: continuation count 0x80 0xBF bytes else []
  | _, _, _, _ => []

def codePoint (lead : UInt8) (rest : Bytes) : Nat :=
  let bits := if rest.isEmpty then 7 else 6 - rest.length
  rest.foldl (fun acc byte => acc * 64 + byte.toNat % 64) (lead.toNat % 2 ^ bits)

def lossyChars : Nat → Bytes → List Char
  | fuel + 1, byte :: bytes =>
      match leadByte byte with
      | none => Char.ofNat 0xFFFD :: lossyChars fuel bytes
      | some (count, low, high) =>
          let rest := continuation count low high bytes
          let char := if rest.length = count then codePoint byte rest else 0xFFFD
          Char.ofNat char :: lossyChars fuel (bytes.drop rest.length)
  | _, _ => []

/-- `String::from_utf8_lossy`: each maximal ill-formed part becomes U+FFFD. -/
def fromUtf8Lossy (bytes : Bytes) : String := String.ofList (lossyChars bytes.length bytes)

theorem toNat_ofNat_byte {n : Nat} (hn : n < 256) : (UInt8.ofNat n).toNat = n := by
  rw [UInt8.toNat_ofNat', Nat.mod_eq_of_lt hn]

theorem leadByte_ofNat {n : Nat} (hn : n < 256) :
    leadByte (UInt8.ofNat n) =
      if n < 0x80 then some (0, 0x80, 0xBF)
      else if 0xC2 ≤ n ∧ n ≤ 0xDF then some (1, 0x80, 0xBF)
      else if n = 0xE0 then some (2, 0xA0, 0xBF)
      else if n = 0xED then some (2, 0x80, 0x9F)
      else if 0xE1 ≤ n ∧ n ≤ 0xEF then some (2, 0x80, 0xBF)
      else if n = 0xF0 then some (3, 0x90, 0xBF)
      else if 0xF1 ≤ n ∧ n ≤ 0xF3 then some (3, 0x80, 0xBF)
      else if n = 0xF4 then some (3, 0x80, 0x8F)
      else none := by
  simp only [leadByte, UInt8.lt_iff_toNat_lt, UInt8.le_iff_toNat_le, ← UInt8.toNat_inj,
    toNat_ofNat_byte hn, UInt8.reduceToNat]

theorem continuation_zero (low high : UInt8) (bytes : Bytes) :
    continuation 0 low high bytes = [] := by
  cases bytes <;> rfl

/-- A byte in its range continues the character. -/
theorem continuation_cons {count : Nat} {low high : UInt8} {n : Nat} (hn : n < 256)
    (hlow : low.toNat ≤ n) (hhigh : n ≤ high.toNat) (bytes : Bytes) :
    continuation (count + 1) low high (UInt8.ofNat n :: bytes) =
      UInt8.ofNat n :: continuation count 0x80 0xBF bytes := by
  rw [continuation, if_pos]
  rw [UInt8.le_iff_toNat_le, UInt8.le_iff_toNat_le, toNat_ofNat_byte hn]
  exact ⟨hlow, hhigh⟩

/-- A lead byte with all its continuation bytes is one character. -/
theorem lossyChars_lead {lead low high : UInt8} {count : Nat} {cont rest : Bytes}
    (hlead : leadByte lead = some (count, low, high))
    (hcont : continuation count low high (cont ++ rest) = cont) (hcount : cont.length = count)
    (fuel : Nat) :
    lossyChars (fuel + 1) (lead :: (cont ++ rest)) =
      Char.ofNat (codePoint lead cont) :: lossyChars fuel rest := by
  rw [lossyChars, hlead]
  simp only [hcont, hcount, if_true]
  rw [← hcount, List.drop_left]

section Encoded

variable {n : Nat} (rest : Bytes) (fuel : Nat)

theorem lossyChars_one (h : n ≤ 127) :
    lossyChars (fuel + 1) (UInt8.ofNat n :: rest) = Char.ofNat n :: lossyChars fuel rest := by
  have hlead : leadByte (UInt8.ofNat n) = some (0, 0x80, 0xBF) := by
    rw [leadByte_ofNat (by omega), if_pos (by omega)]
  have hpoint : codePoint (UInt8.ofNat n) [] = n := by
    simp only [codePoint, List.isEmpty_nil, if_true, List.foldl_nil]
    rw [toNat_ofNat_byte (by omega), Nat.mod_eq_of_lt (by omega)]
  have hchars := lossyChars_lead hlead (continuation_zero _ _ ([] ++ rest)) rfl fuel
  rwa [hpoint] at hchars

theorem lossyChars_two (hlow : 127 < n) (hhigh : n ≤ 2047) :
    lossyChars (fuel + 1)
        (UInt8.ofNat (n / 64 % 32 + 192) :: UInt8.ofNat (n % 64 + 128) :: rest) =
      Char.ofNat n :: lossyChars fuel rest := by
  have hlead : leadByte (UInt8.ofNat (n / 64 % 32 + 192)) = some (1, 0x80, 0xBF) := by
    rw [leadByte_ofNat (by omega), if_neg (by omega), if_pos (by omega)]
  have hcont : continuation 1 0x80 0xBF ([UInt8.ofNat (n % 64 + 128)] ++ rest) =
      [UInt8.ofNat (n % 64 + 128)] := by
    rw [List.singleton_append, continuation_cons (by omega) (by simp) (by simp; omega),
      continuation_zero]
  have hpoint : codePoint (UInt8.ofNat (n / 64 % 32 + 192)) [UInt8.ofNat (n % 64 + 128)] = n := by
    simp only [codePoint, List.isEmpty_cons, List.length_singleton, List.foldl_cons,
      List.foldl_nil]
    rw [toNat_ofNat_byte (by omega), toNat_ofNat_byte (by omega)]
    norm_num
    omega
  have hchars := lossyChars_lead hlead hcont rfl fuel
  rwa [hpoint] at hchars

theorem lossyChars_three (hlow : 2047 < n) (hhigh : n ≤ 65535)
    (hvalid : n < 0xD800 ∨ 0xDFFF < n) :
    lossyChars (fuel + 1)
        (UInt8.ofNat (n / 4096 % 16 + 224) :: UInt8.ofNat (n / 64 % 64 + 128) ::
          UInt8.ofNat (n % 64 + 128) :: rest) =
      Char.ofNat n :: lossyChars fuel rest := by
  obtain ⟨low, high, hlead, hrange⟩ : ∃ low high,
      leadByte (UInt8.ofNat (n / 4096 % 16 + 224)) = some (2, low, high) ∧
      low.toNat ≤ n / 64 % 64 + 128 ∧ n / 64 % 64 + 128 ≤ high.toNat := by
    rw [leadByte_ofNat (by omega), if_neg (by omega), if_neg (by omega)]
    by_cases hfirst : n / 4096 % 16 + 224 = 0xE0
    · exact ⟨0xA0, 0xBF, by rw [if_pos hfirst], by simp; omega, by simp; omega⟩
    · rw [if_neg hfirst]
      by_cases hlast : n / 4096 % 16 + 224 = 0xED
      · exact ⟨0x80, 0x9F, by rw [if_pos hlast], by simp, by simp; omega⟩
      · rw [if_neg hlast, if_pos (by omega)]
        exact ⟨0x80, 0xBF, rfl, by simp, by simp; omega⟩
  have hcont : continuation 2 low high
      ([UInt8.ofNat (n / 64 % 64 + 128), UInt8.ofNat (n % 64 + 128)] ++ rest) =
      [UInt8.ofNat (n / 64 % 64 + 128), UInt8.ofNat (n % 64 + 128)] := by
    rw [List.cons_append, continuation_cons (by omega) hrange.1 hrange.2, List.singleton_append,
      continuation_cons (by omega) (by simp) (by simp; omega), continuation_zero]
  have hpoint : codePoint (UInt8.ofNat (n / 4096 % 16 + 224))
      [UInt8.ofNat (n / 64 % 64 + 128), UInt8.ofNat (n % 64 + 128)] = n := by
    simp only [codePoint, List.isEmpty_cons, List.length_cons, List.length_nil, List.foldl_cons,
      List.foldl_nil]
    rw [toNat_ofNat_byte (by omega), toNat_ofNat_byte (by omega), toNat_ofNat_byte (by omega)]
    norm_num
    omega
  have hchars := lossyChars_lead hlead hcont rfl fuel
  rwa [hpoint] at hchars

theorem lossyChars_four (hlow : 65535 < n) (hhigh : n < 0x110000) :
    lossyChars (fuel + 1)
        (UInt8.ofNat (n / 262144 % 8 + 240) :: UInt8.ofNat (n / 4096 % 64 + 128) ::
          UInt8.ofNat (n / 64 % 64 + 128) :: UInt8.ofNat (n % 64 + 128) :: rest) =
      Char.ofNat n :: lossyChars fuel rest := by
  obtain ⟨low, high, hlead, hrange⟩ : ∃ low high,
      leadByte (UInt8.ofNat (n / 262144 % 8 + 240)) = some (3, low, high) ∧
      low.toNat ≤ n / 4096 % 64 + 128 ∧ n / 4096 % 64 + 128 ≤ high.toNat := by
    rw [leadByte_ofNat (by omega), if_neg (by omega), if_neg (by omega), if_neg (by omega),
      if_neg (by omega), if_neg (by omega)]
    by_cases hfirst : n / 262144 % 8 + 240 = 0xF0
    · exact ⟨0x90, 0xBF, by rw [if_pos hfirst], by simp; omega, by simp; omega⟩
    · rw [if_neg hfirst]
      by_cases hmiddle : n / 262144 % 8 + 240 ≤ 0xF3
      · rw [if_pos (by omega)]
        exact ⟨0x80, 0xBF, rfl, by simp, by simp; omega⟩
      · rw [if_neg (by omega), if_pos (by omega)]
        exact ⟨0x80, 0x8F, rfl, by simp, by simp; omega⟩
  have hcont : continuation 3 low high
      ([UInt8.ofNat (n / 4096 % 64 + 128), UInt8.ofNat (n / 64 % 64 + 128),
        UInt8.ofNat (n % 64 + 128)] ++ rest) =
      [UInt8.ofNat (n / 4096 % 64 + 128), UInt8.ofNat (n / 64 % 64 + 128),
        UInt8.ofNat (n % 64 + 128)] := by
    rw [List.cons_append, continuation_cons (by omega) hrange.1 hrange.2, List.cons_append,
      continuation_cons (by omega) (by simp) (by simp; omega), List.singleton_append,
      continuation_cons (by omega) (by simp) (by simp; omega), continuation_zero]
  have hpoint : codePoint (UInt8.ofNat (n / 262144 % 8 + 240))
      [UInt8.ofNat (n / 4096 % 64 + 128), UInt8.ofNat (n / 64 % 64 + 128),
        UInt8.ofNat (n % 64 + 128)] = n := by
    simp only [codePoint, List.isEmpty_cons, List.length_cons, List.length_nil, List.foldl_cons,
      List.foldl_nil]
    rw [toNat_ofNat_byte (by omega), toNat_ofNat_byte (by omega), toNat_ofNat_byte (by omega),
      toNat_ofNat_byte (by omega)]
    norm_num
    omega
  have hchars := lossyChars_lead hlead hcont rfl fuel
  rwa [hpoint] at hchars

theorem lossyChars_char (char : Char) :
    lossyChars (fuel + 1) (String.utf8EncodeChar char ++ rest) = char :: lossyChars fuel rest := by
  have hchar : Char.ofNat char.val.toNat = char := Char.ofNat_toNat char
  have hvalid := char.valid
  simp only [UInt32.isValidChar, Nat.isValidChar] at hvalid
  simp only [String.utf8EncodeChar]
  generalize char.val.toNat = n at hchar hvalid
  rw [← hchar]
  split
  · exact lossyChars_one rest fuel ‹_›
  · split
    · exact lossyChars_two rest fuel (by omega) ‹_›
    · split
      · exact lossyChars_three rest fuel (by omega) ‹_› (by omega)
      · exact lossyChars_four rest fuel (by omega) (by omega)

end Encoded

theorem asBytes_eq (s : String) : asBytes s = s.toList.flatMap String.utf8EncodeChar := by
  have hlist : s = String.ofList s.toList := String.ofList_toList.symm
  rw [asBytes]
  conv_lhs => rw [hlist, String.toByteArray_ofList, List.utf8Encode]
  simp

theorem lossyChars_encoded (chars : List Char) {fuel : Nat} (hfuel : chars.length ≤ fuel) :
    lossyChars fuel (chars.flatMap String.utf8EncodeChar) = chars := by
  induction chars generalizing fuel with
  | nil => cases fuel <;> rfl
  | cons char chars ih =>
      obtain ⟨fuel, rfl⟩ : ∃ fuel', fuel = fuel' + 1 :=
        ⟨fuel - 1, by rw [List.length_cons] at hfuel; omega⟩
      rw [List.flatMap_cons, lossyChars_char, ih (by simpa using hfuel)]

theorem length_le_encoded (chars : List Char) :
    chars.length ≤ (chars.flatMap String.utf8EncodeChar).length := by
  induction chars with
  | nil => exact Nat.zero_le _
  | cons char chars ih =>
      have hpos := char.utf8Size_pos
      rw [List.flatMap_cons, List.length_append, String.length_utf8EncodeChar, List.length_cons]
      omega

theorem fromUtf8Lossy_encoded (chars : List Char) :
    fromUtf8Lossy (chars.flatMap String.utf8EncodeChar) = String.ofList chars := by
  rw [fromUtf8Lossy, lossyChars_encoded chars (length_le_encoded chars)]

/-- Text comes back from its bytes. -/
theorem fromUtf8Lossy_asBytes (s : String) : fromUtf8Lossy (asBytes s) = s := by
  rw [asBytes_eq, fromUtf8Lossy_encoded, String.ofList_toList]

/-- The byte 255 occurs in no text. -/
theorem toNat_lt_of_mem_encoded {char : Char} {byte : UInt8}
    (h : byte ∈ String.utf8EncodeChar char) : byte.toNat < 255 := by
  have hbyte : ∀ n < 255, (UInt8.ofNat n).toNat < 255 := by
    intro n hn
    rwa [toNat_ofNat_byte (by omega)]
  simp only [String.utf8EncodeChar] at h
  generalize char.val.toNat = n at h
  split at h
  · rw [List.mem_singleton.mp h]
    exact hbyte _ (by omega)
  · split at h
    · simp only [List.mem_cons, List.not_mem_nil, or_false] at h
      rcases h with rfl | rfl
      all_goals exact hbyte _ (by omega)
    · split at h
      · simp only [List.mem_cons, List.not_mem_nil, or_false] at h
        rcases h with rfl | rfl | rfl
        all_goals exact hbyte _ (by omega)
      · simp only [List.mem_cons, List.not_mem_nil, or_false] at h
        rcases h with rfl | rfl | rfl | rfl
        all_goals exact hbyte _ (by omega)

theorem toNat_lt_of_mem_asBytes {s : String} {byte : UInt8} (h : byte ∈ asBytes s) :
    byte.toNat < 255 := by
  rw [asBytes_eq, List.mem_flatMap] at h
  obtain ⟨char, -, hbyte⟩ := h
  exact toNat_lt_of_mem_encoded hbyte

theorem asBytes_inj {s t : String} : asBytes s = asBytes t ↔ s = t := by
  refine ⟨?_, congrArg asBytes⟩
  intro h
  rw [← fromUtf8Lossy_asBytes s, h, fromUtf8Lossy_asBytes]

section Size

/-- The least number of bytes a character can come from: a replacement character
also stands for one ill-formed byte. -/
def leastSize (char : Char) : Nat :=
  if char = Char.ofNat 0xFFFD then 1 else char.utf8Size

def textSize (s : String) : Nat := (s.toList.map leastSize).sum

theorem leastSize_le (char : Char) : leastSize char ≤ char.utf8Size := by
  unfold leastSize
  split
  · exact char.utf8Size_pos
  · exact le_rfl

theorem toNat_ofNat_le (n : Nat) : (Char.ofNat n).val.toNat ≤ n := by
  by_cases hvalid : n.isValidChar
  · exact (congrArg (fun char : Char => char.val.toNat) (dif_pos hvalid)).le
  · exact (congrArg (fun char : Char => char.val.toNat) (dif_neg hvalid)).trans_le (Nat.zero_le n)

theorem utf8Size_eq (char : Char) :
    char.utf8Size =
      if char.val.toNat ≤ 0x7F then 1
      else if char.val.toNat ≤ 0x7FF then 2
      else if char.val.toNat ≤ 0xFFFF then 3
      else 4 := by
  simp only [Char.utf8Size, UInt32.le_iff_toNat_le]
  rfl

/-- A code point of few bits needs few bytes. -/
theorem utf8Size_codePoint (lead : UInt8) (cont : Bytes) :
    (Char.ofNat (codePoint lead cont)).utf8Size ≤ cont.length + 1 := by
  have hle := toNat_ofNat_le (codePoint lead cont)
  rw [utf8Size_eq]
  generalize (Char.ofNat (codePoint lead cont)).val.toNat = n at hle
  rcases cont with _ | ⟨a, _ | ⟨b, _ | ⟨c, cont⟩⟩⟩
  · have hpoint : codePoint lead [] < 128 := Nat.mod_lt _ (by decide)
    rw [if_pos (by omega)]
    omega
  · have hpoint : codePoint lead [a] < 2048 := by
      simp only [codePoint, List.isEmpty_cons, List.length_cons, List.length_nil, List.foldl_cons,
        List.foldl_nil]
      norm_num
      omega
    simp only [List.length_cons, List.length_nil]
    split
    · omega
    · rw [if_pos (by omega)]
  · have hpoint : codePoint lead [a, b] < 65536 := by
      simp only [codePoint, List.isEmpty_cons, List.length_cons, List.length_nil, List.foldl_cons,
        List.foldl_nil]
      norm_num
      omega
    simp only [List.length_cons, List.length_nil]
    split
    · omega
    · split
      · omega
      · rw [if_pos (by omega)]
  · simp only [List.length_cons]
    split
    · omega
    · split
      · omega
      · split <;> omega

theorem continuation_length_le (count : Nat) (low high : UInt8) (bytes : Bytes) :
    (continuation count low high bytes).length ≤ bytes.length := by
  induction count generalizing low high bytes with
  | zero =>
      rw [continuation_zero]
      exact Nat.zero_le _
  | succ count ih =>
      cases bytes with
      | nil => exact Nat.zero_le _
      | cons byte bytes =>
          rw [continuation]
          split
          · simpa using ih 0x80 0xBF bytes
          · exact Nat.zero_le _

theorem lossyChars_size (fuel : Nat) (bytes : Bytes) :
    ((lossyChars fuel bytes).map leastSize).sum ≤ bytes.length := by
  induction fuel generalizing bytes with
  | zero => exact Nat.zero_le _
  | succ fuel ih =>
      cases bytes with
      | nil => exact Nat.zero_le _
      | cons byte bytes =>
          have hreplaced : leastSize (Char.ofNat 0xFFFD) = 1 := if_pos rfl
          rw [lossyChars]
          cases hlead : leadByte byte with
          | none =>
              have htail := ih bytes
              simp only [List.map_cons, List.sum_cons, hreplaced, List.length_cons]
              omega
          | some kind =>
              obtain ⟨count, low, high⟩ := kind
              have hle := continuation_length_le count low high bytes
              have htail := ih (bytes.drop (continuation count low high bytes).length)
              rw [List.length_drop] at htail
              simp only [List.map_cons, List.sum_cons, List.length_cons]
              split
              · have hpoint := utf8Size_codePoint byte (continuation count low high bytes)
                have hchar := leastSize_le (Char.ofNat
                  (codePoint byte (continuation count low high bytes)))
                omega
              · rw [hreplaced]
                omega

theorem utf8Size_le (char : Char) : char.utf8Size ≤ 3 * leastSize char := by
  unfold leastSize
  split
  · rename_i hreplaced
    rw [hreplaced]
    decide
  · omega

/-- The bytes of a text, when each U+FFFD may stand for a single byte. -/
theorem asBytes_length_le (s : String) : (asBytes s).length ≤ 3 * textSize s := by
  rw [asBytes_eq, textSize]
  induction s.toList with
  | nil => exact Nat.zero_le _
  | cons char chars ih =>
      have hchar := utf8Size_le char
      rw [List.flatMap_cons, List.length_append, String.length_utf8EncodeChar, List.map_cons,
        List.sum_cons]
      omega

/-- Text is not larger than the bytes it was decoded from. -/
theorem textSize_fromUtf8Lossy (bytes : Bytes) : textSize (fromUtf8Lossy bytes) ≤ bytes.length := by
  rw [textSize, fromUtf8Lossy, String.toList_ofList]
  exact lossyChars_size _ _

theorem length_fromUtf8Lossy (bytes : Bytes) :
    (asBytes (fromUtf8Lossy bytes)).length ≤ 3 * bytes.length := by
  have hbytes := asBytes_length_le (fromUtf8Lossy bytes)
  have hsize := textSize_fromUtf8Lossy bytes
  omega

/-- Bytes leave at least one character. -/
theorem fromUtf8Lossy_ne_empty {bytes : Bytes} (h : bytes ≠ []) : fromUtf8Lossy bytes ≠ "" := by
  cases bytes with
  | nil => exact absurd rfl h
  | cons byte bytes =>
      intro hempty
      have hchars := congrArg String.toList hempty
      rw [fromUtf8Lossy, String.toList_ofList, List.length_cons, lossyChars] at hchars
      cases hlead : leadByte byte with
      | none =>
          rw [hlead] at hchars
          cases hchars
      | some kind =>
          rw [hlead] at hchars
          cases hchars

end Size

end PostgressRs.Lib.Utf8
