import PostgressRs.Executor.UpdateConservation

/-!
The values of a row, joined with separators by `tuple_insert`, split and joined again by
`build_updated_data` and read by `decode_tuple_values`.
-/

namespace PostgressRs.Executor.ValueCodec

open PostgressRs.Executor.HeapAccess
open PostgressRs.Executor.InsertComplete
open PostgressRs.Executor.UpdateConservation
open PostgressRs.Lib.ByteBuffer
open PostgressRs.Lib.Utf8
open PostgressRs.Types

section Rows

theorem fitRow_eq (n : Nat) (values : List String) :
    fitRow n values = values.take n ++ List.replicate (n - values.length) "" := by
  induction n generalizing values with
  | zero => simp [fitRow]
  | succ n ih =>
      cases values with
      | nil =>
          rw [fitRow, ih, List.take_nil, List.take_nil, List.nil_append, List.nil_append,
            List.length_nil, Nat.sub_zero, Nat.sub_zero, List.replicate_succ]
      | cons value values =>
          rw [fitRow, ih, List.take_succ_cons, List.cons_append, List.length_cons,
            Nat.add_sub_add_right]

/-- Setting a value that is there commutes with fitting the row. -/
theorem fitRow_set {values : List String} {column : Nat} (h : column < values.length)
    (n : Nat) (value : String) :
    (fitRow n values).set column value = fitRow n (values.set column value) := by
  induction n generalizing values column with
  | zero => rfl
  | succ n ih =>
      cases values with
      | nil => exact absurd h (Nat.not_lt_zero column)
      | cons first values =>
          cases column with
          | zero => rfl
          | succ column =>
              rw [fitRow, List.set_cons_succ, ih (Nat.lt_of_succ_lt_succ h), List.set_cons_succ,
                fitRow]

end Rows

section Codec

variable {values : List String}

theorem splitOn_newTuple (hnul : NulFree values) (hne : values ≠ []) (xid : UInt64) :
    (newTuple (values.map asBytes) xid).data.splitOn 0 = values.map asBytes := by
  apply List.splitOn_intercalate
  · intro part hpart
    obtain ⟨value, hvalue, rfl⟩ := List.mem_map.mp hpart
    exact hnul value hvalue
  · rw [ne_eq, List.map_eq_nil_iff]
    exact hne

theorem width_newTuple (hnul : NulFree values) (hne : values ≠ []) (xid : UInt64) :
    width (newTuple (values.map asBytes) xid) = values.length := by
  rw [width, splitOn_newTuple hnul hne]
  simp [newTuple]

/-- A row is read as its values, as many as there are columns, before and after one of
them is replaced. -/
theorem tuple_values_codec (desc : TupleDesc) {values : List String} (hnul : NulFree values)
    (xid : UInt64) :
    decodeTupleValues (newTuple (values.map asBytes) xid) desc =
        values.take desc.fields.length ++
          List.replicate (desc.fields.length - values.length) "" ∧
      ∀ column value, column < values.length → 0 ∉ asBytes value →
        ∃ newData, buildUpdatedData (newTuple (values.map asBytes) xid).data column
            (asBytes value) = some newData ∧
          decodeTupleValues { newTuple (values.map asBytes) xid with data := newData } desc =
            (values.set column value).take desc.fields.length ++
              List.replicate (desc.fields.length - values.length) "" := by
  constructor
  · rw [decodeTupleValues_newTuple desc values hnul, fitRow_eq]
  · intro column value hcolumn hvalue
    have hne : values ≠ [] := by
      rintro rfl
      exact Nat.not_lt_zero column hcolumn
    have hwidth : column < width (newTuple (values.map asBytes) xid) := by
      rwa [width_newTuple hnul hne]
    obtain ⟨newData, hdata, hdecoded⟩ := decodeTupleValues_updated hwidth hvalue desc xid
    refine ⟨newData, hdata, hdecoded.trans ?_⟩
    rw [decodeTupleValues_newTuple desc values hnul, fitRow_set hcolumn, fitRow_eq,
      List.length_set]

/-- Of three values, the last one empty, two columns are read. -/
theorem tuple_values_codec_two :
    decodeTupleValues (newTuple (["a", "", ""].map asBytes) 1)
        { fields := [⟨"x", ⟨25⟩, 1, -1⟩, ⟨"y", ⟨25⟩, 2, -1⟩] } = ["a", ""] := by
  have hbytes : asBytes "a" = [97] := asBytes_replicate 1 'a' 97 (by decide)
  have hnul : NulFree ["a", "", ""] := by
    intro value hvalue
    simp only [List.mem_cons, List.not_mem_nil, or_false] at hvalue
    rcases hvalue with rfl | rfl | rfl
    · rw [hbytes]
      decide
    · rw [asBytes_empty]
      exact List.not_mem_nil
    · rw [asBytes_empty]
      exact List.not_mem_nil
  exact (tuple_values_codec _ hnul 1).1

end Codec

end PostgressRs.Executor.ValueCodec
