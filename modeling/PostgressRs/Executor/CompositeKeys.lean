import PostgressRs.Executor.IndexScan

/-!
Keys of several columns (`encode_index_key` and `decode_index_key` of `src/executor/btree.rs`,
`BTreeIndex` of `src/btree/mod.rs`).  The empty text and the word `NULL` are both written as a
null; every other list of values comes back from its key.
-/

namespace PostgressRs.Executor.CompositeKeys

open PostgressRs.Executor.IndexScan
open PostgressRs.Lib.ByteBuffer
open PostgressRs.Lib.Utf8

section Decoding

/-- A separator is skipped if there is one. -/
def skipSeparator : Bytes → Bytes
  | [] => []
  | byte :: rest => if byte = 0xFF then rest else byte :: rest

theorem length_skipSeparator_le (bytes : Bytes) : (skipSeparator bytes).length ≤ bytes.length := by
  cases bytes with
  | nil => exact le_rfl
  | cons byte rest =>
      rw [skipSeparator]
      split
      · exact Nat.le_succ _
      · exact le_rfl

/-- The columns are not looked at.  A `none` is a panic: a tag without a direction byte. -/
def decodeIndexKey (key : Bytes) (columns : List IndexColumn) : Option (List String) :=
  match key with
  | [] => some []
  | nullIndicator :: rest =>
      if nullIndicator = 0 then
        (decodeIndexKey (skipSeparator (rest.drop 1)) columns).map ("NULL" :: ·)
      else
        match rest with
        | [] => none
        | _direction :: rest =>
            if rest.length < 4 then some []
            else
              let len := fromLeBytes (rest.take 4)
              if (rest.drop 4).length < len then some []
              else
                let val := fromUtf8Lossy ((rest.drop 4).take len)
                (decodeIndexKey (skipSeparator ((rest.drop 4).drop len)) columns).map (val :: ·)
termination_by key.length
decreasing_by
  · have hle := length_skipSeparator_le (rest.drop 1)
    simp only [List.length_drop, List.length_cons] at hle ⊢
    omega
  · have hle := length_skipSeparator_le ((rest.drop 4).drop (fromLeBytes (rest.take 4)))
    simp only [List.length_drop, List.length_cons] at hle ⊢
    omega

structure BTreeIndex where
  columns : List IndexColumn

def BTreeIndex.encodeCompositeKey (self : BTreeIndex) (values : List String) : Bytes :=
  encodeIndexKey values self.columns

def BTreeIndex.decodeCompositeKey (self : BTreeIndex) (key : Bytes) : Option (List String) :=
  decodeIndexKey key self.columns

end Decoding

section Columns

/-- The direction of the first column. -/
def headDirection (columns : List IndexColumn) : SortDirection :=
  (columns.head?.map IndexColumn.direction).getD .asc

def headNullsFirst (columns : List IndexColumn) : Bool :=
  (columns.head?.map IndexColumn.nullsFirst).getD false

/-- A key is the part of its first column, a separator and the key of the other columns. -/
theorem encodeIndexKey_cons (value : String) (values : List String) (columns : List IndexColumn) :
    encodeIndexKey (value :: values) columns =
      encodeIndexValue value (headDirection columns) (headNullsFirst columns) ++
        0xFF :: encodeIndexKey values columns.tail := by
  have hshift : values.zipIdx 1 = values.zipIdx.map (Prod.map id (· + 1)) := by
    rw [List.zipIdx_succ]
    rfl
  simp only [encodeIndexKey, List.zipIdx_cons, List.flatMap_cons, Nat.zero_add, hshift,
    List.flatMap_map, List.append_assoc, List.singleton_append, headDirection, headNullsFirst,
    List.head?_eq_getElem?, List.getElem?_tail]
  rfl

@[simp] theorem encodeIndexKey_nil (columns : List IndexColumn) : encodeIndexKey [] columns = [] :=
  rfl

/-- Values that are written as nulls. -/
def NullText (value : String) : Prop := value = "" ∨ value = "NULL"

instance (value : String) : Decidable (NullText value) := inferInstanceAs (Decidable (_ ∨ _))

theorem encodeIndexValue_of_null {value : String} (h : NullText value) (direction : SortDirection)
    (nullsFirst : Bool) :
    encodeIndexValue value direction nullsFirst = [0, if nullsFirst then 1 else 0] :=
  if_pos h

theorem encodeIndexValue_of_not_null {value : String} (h : ¬NullText value)
    (direction : SortDirection) (nullsFirst : Bool) :
    encodeIndexValue value direction nullsFirst =
      1 :: (if direction = .desc then 1 else 0) ::
        (toLeBytes 4 (asBytes value).length ++ asBytes value) :=
  if_neg h

end Columns

section RoundTrip

/-- What becomes of a value in a key. -/
def storedText (value : String) : String := if value = "" then "NULL" else value

theorem storedText_of_null {value : String} (h : NullText value) : storedText value = "NULL" := by
  rcases h with rfl | rfl
  · rfl
  · rfl

theorem storedText_of_not_null {value : String} (h : ¬NullText value) : storedText value = value :=
  if_neg fun hempty => h (.inl hempty)

theorem decodeIndexKey_null (byte : UInt8) (rest : Bytes) (columns : List IndexColumn) :
    decodeIndexKey (0 :: byte :: 0xFF :: rest) columns =
      (decodeIndexKey rest columns).map ("NULL" :: ·) := by
  conv_lhs => rw [decodeIndexKey]
  rfl

/-- The bytes of a value are counted, so that nothing among them is taken for their end. -/
theorem decodeIndexKey_value {bytes : Bytes} (hlen : bytes.length < 2 ^ 32) (direction : UInt8)
    (rest : Bytes) (columns : List IndexColumn) :
    decodeIndexKey (1 :: direction :: (toLeBytes 4 bytes.length ++ (bytes ++ 0xFF :: rest)))
        columns =
      (decodeIndexKey rest columns).map (fromUtf8Lossy bytes :: ·) := by
  have hwidth : (toLeBytes 4 bytes.length).length = 4 := toLeBytes_length 4 _
  have htake : (toLeBytes 4 bytes.length ++ (bytes ++ 0xFF :: rest)).take 4 =
      toLeBytes 4 bytes.length := List.take_left' hwidth
  have hdrop : (toLeBytes 4 bytes.length ++ (bytes ++ 0xFF :: rest)).drop 4 =
      bytes ++ 0xFF :: rest := List.drop_left' hwidth
  have hread : fromLeBytes (toLeBytes 4 bytes.length) = bytes.length :=
    fromLeBytes_toLeBytes 4 _ hlen
  have henough : ¬(toLeBytes 4 bytes.length ++ (bytes ++ 0xFF :: rest)).length < 4 := by
    rw [List.length_append, hwidth]
    omega
  have hall : ¬(bytes ++ 0xFF :: rest).length < bytes.length := by
    rw [List.length_append]
    omega
  conv_lhs => rw [decodeIndexKey]
  simp only [htake, hdrop, hread, if_neg henough, if_neg hall, List.take_left, List.drop_left]
  rfl

/-- One column is read, and the rest of the key is left. -/
theorem decodeIndexKey_column {value : String} (hlen : (asBytes value).length < 2 ^ 32)
    (direction : SortDirection) (nullsFirst : Bool) (rest : Bytes) (columns : List IndexColumn) :
    decodeIndexKey (encodeIndexValue value direction nullsFirst ++ 0xFF :: rest) columns =
      (decodeIndexKey rest columns).map (storedText value :: ·) := by
  rcases Classical.em (NullText value) with hnull | hvalue
  · rw [encodeIndexValue_of_null hnull, storedText_of_null hnull]
    exact decodeIndexKey_null _ rest columns
  · rw [encodeIndexValue_of_not_null hvalue, storedText_of_not_null hvalue, List.cons_append,
      List.cons_append, List.append_assoc, decodeIndexKey_value hlen, fromUtf8Lossy_asBytes]

theorem decodeIndexKey_encode {values : List String}
    (hlen : ∀ value ∈ values, (asBytes value).length < 2 ^ 32)
    (columns columns' : List IndexColumn) :
    decodeIndexKey (encodeIndexKey values columns) columns' = some (values.map storedText) := by
  induction values generalizing columns with
  | nil =>
      rw [encodeIndexKey_nil, decodeIndexKey]
      rfl
  | cons value values ih =>
      rw [List.forall_mem_cons] at hlen
      rw [encodeIndexKey_cons, decodeIndexKey_column hlen.1, ih hlen.2, List.map_cons]
      rfl

theorem map_storedText {values : List String} (h : "" ∉ values) :
    values.map storedText = values := by
  have hkept : ∀ value ∈ values, storedText value = id value := by
    intro value hvalue
    have hne : value ≠ "" := by
      rintro rfl
      exact h hvalue
    exact if_neg hne
  rw [List.map_congr_left hkept, List.map_id]

theorem index_key_round_trip (values : List String) (columns : List IndexColumn)
    (hlen : ∀ value ∈ values, (asBytes value).length < 2 ^ 32) :
    decodeIndexKey (encodeIndexKey values columns) columns = some (values.map storedText) ∧
      (∀ index : BTreeIndex, index.columns = columns →
        index.encodeCompositeKey values = encodeIndexKey values columns ∧
          index.decodeCompositeKey (index.encodeCompositeKey values) =
            some (values.map storedText)) ∧
      ∀ (others : List String) (columns' : List IndexColumn),
        (∀ value ∈ others, (asBytes value).length < 2 ^ 32) → "" ∉ values → "" ∉ others →
          encodeIndexKey values columns = encodeIndexKey others columns' → values = others := by
  refine ⟨decodeIndexKey_encode hlen columns columns, ?_, ?_⟩
  · rintro index rfl
    exact ⟨rfl, decodeIndexKey_encode hlen _ _⟩
  · intro others columns' hlen' hvalues hothers heq
    have hdecoded := decodeIndexKey_encode hlen columns columns
    rw [heq, decodeIndexKey_encode hlen' columns' columns, map_storedText hvalues,
      map_storedText hothers] at hdecoded
    exact (Option.some.inj hdecoded).symm

/-- An empty value, and columns without a definition. -/
theorem index_key_round_trip_short :
    decodeIndexKey (encodeIndexKey ["a", "", "b"] [⟨"id", .desc, true⟩]) [⟨"id", .desc, true⟩] =
      some ["a", "NULL", "b"] := by
  have hlen : ∀ value ∈ ["a", "", "b"], (asBytes value).length < 2 ^ 32 := by
    decide
  exact (index_key_round_trip ["a", "", "b"] [⟨"id", .desc, true⟩] hlen).1

end RoundTrip

end PostgressRs.Executor.CompositeKeys
