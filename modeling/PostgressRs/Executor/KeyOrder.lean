import PostgressRs.Executor.CompositeKeys
import PostgressRs.Lib.Comparisons
import PostgressRs.Lib.PrefixOrder

/-!
The order of index keys against the order of the values in them.  A key has the length of a value
before the value, and its direction and null order only as bytes that are the same in all keys.
-/

namespace PostgressRs.Executor.KeyOrder

open PostgressRs.Btree.IndexPage
open PostgressRs.Executor.CompositeKeys
open PostgressRs.Executor.IndexScan
open PostgressRs.Lib.ByteBuffer
open PostgressRs.Lib.Comparisons
open PostgressRs.Lib.PrefixOrder
open PostgressRs.Lib.SortedSearch
open PostgressRs.Lib.Utf8

/-- The order of a page's entries. -/
def keyOrder (a b : Bytes) : Ordering := lexCompare a b

theorem insertSorted_eq (page : BTreePage) (tuple : IndexTuple) :
    page.insertSorted tuple =
      { page with
        keys := page.keys.insertIdx
          (position (binarySearchBy (fun t => keyOrder t.key tuple.key) page.keys)) tuple } := rfl

section Values

/-- A value that is not written as a null. -/
def present (value : String) : Option String := if NullText value then none else some value

def directed (direction : SortDirection) (order : Ordering) : Ordering :=
  if direction = .desc then order.swap else order

/-- The order of two values in a column. -/
def valueOrder (direction : SortDirection) (nullsFirst : Bool) (v w : String) : Ordering :=
  withMissing nullsFirst
    (fun v w => directed direction (keyOrder (asBytes v) (asBytes w))) (present v) (present w)

/-- The order of two lists of values, column by column. -/
def valuesOrder : List IndexColumn → List String → List String → Ordering
  | columns, v :: vs, w :: ws =>
      (valueOrder (headDirection columns) (headNullsFirst columns) v w).then
        (valuesOrder columns.tail vs ws)
  | _, _, _ => .eq

theorem directed_eq_iff {direction : SortDirection} {v w : String} :
    directed direction (keyOrder (asBytes v) (asBytes w)) = .eq ↔ v = w := by
  rw [← asBytes_inj, ← lexCompare_eq_iff, directed]
  split
  · exact Ordering.swap_eq_eq
  · exact Iff.rfl

theorem valueOrder_eq_iff {direction : SortDirection} {nullsFirst : Bool} {v w : String} :
    valueOrder direction nullsFirst v w = .eq ↔ present v = present w :=
  withMissing_eq_iff fun _ _ => directed_eq_iff

end Values

section Stored

/-- The bytes that say how long a value is. -/
def lengthBytes (value : String) : Bytes := toLeBytes 4 (asBytes value).length

/-- The order in which keys with these values in a column come, whatever the column is. -/
def storedOrder (v w : String) : Ordering :=
  withMissing true
    (fun v w => (lexCompare (lengthBytes v) (lengthBytes w)).then
      (prefixLast (asBytes v) (asBytes w)))
    (present v) (present w)

theorem storedOrder_eq_iff {v w : String} : storedOrder v w = .eq ↔ present v = present w := by
  apply withMissing_eq_iff
  intro v w
  rw [Ordering.then_eq_eq, prefixLast_eq_iff, asBytes_inj, lexCompare_eq_iff]
  refine ⟨And.right, ?_⟩
  rintro rfl
  exact ⟨rfl, rfl⟩

theorem lt_separator {s : String} : ∀ byte ∈ asBytes s, byte < 0xFF :=
  fun _ hbyte => UInt8.lt_iff_toNat_lt.mpr (toNat_lt_of_mem_asBytes hbyte)

/-- Keys are compared column by column. -/
theorem lexCompare_column (direction : SortDirection) (nullsFirst : Bool) (v w : String)
    (rest rest' : Bytes) :
    lexCompare (encodeIndexValue v direction nullsFirst ++ 0xFF :: rest)
        (encodeIndexValue w direction nullsFirst ++ 0xFF :: rest') =
      (storedOrder v w).then (lexCompare rest rest') := by
  have htag : compare (0 : UInt8) 1 = .lt := compare_lt_iff_lt.mpr (by decide)
  have htag' : compare (1 : UInt8) 0 = .gt := compare_gt_iff_gt.mpr (by decide)
  rcases Classical.em (NullText v) with hv | hv
  · rcases Classical.em (NullText w) with hw | hw
    · rw [storedOrder, present, present, if_pos hv, if_pos hw, encodeIndexValue_of_null hv,
        encodeIndexValue_of_null hw, lexCompare_append_left, lexCompare_cons,
        compare_eq_iff_eq.mpr rfl]
      rfl
    · rw [storedOrder, present, present, if_pos hv, if_neg hw, encodeIndexValue_of_null hv,
        encodeIndexValue_of_not_null hw]
      simp only [List.cons_append]
      rw [lexCompare_cons, htag]
      rfl
  · rcases Classical.em (NullText w) with hw | hw
    · rw [storedOrder, present, present, if_neg hv, if_pos hw, encodeIndexValue_of_not_null hv,
        encodeIndexValue_of_null hw]
      simp only [List.cons_append]
      rw [lexCompare_cons, htag']
      rfl
    · have hwidth : (lengthBytes v).length = (lengthBytes w).length := by
        rw [lengthBytes, lengthBytes, toLeBytes_length, toLeBytes_length]
      have hvalues : lexCompare (lengthBytes v ++ (asBytes v ++ 0xFF :: rest))
          (lengthBytes w ++ (asBytes w ++ 0xFF :: rest')) =
          (storedOrder v w).then (lexCompare rest rest') := by
        rw [lexCompare_append hwidth, lexCompare_stopped lt_separator lt_separator,
          ← Ordering.then_assoc, storedOrder, present, present, if_neg hv, if_neg hw]
        rfl
      rw [← hvalues, encodeIndexValue_of_not_null hv, encodeIndexValue_of_not_null hw]
      simp only [List.cons_append, List.append_assoc]
      rw [lexCompare_cons, lexCompare_cons, compare_eq_iff_eq.mpr rfl, compare_eq_iff_eq.mpr rfl]
      rfl

end Stored

section Kept

/-- The lengths come before the values, and a value comes behind the values that go on after it:
both must be as the direction wants it. -/
def ColumnKept (direction : SortDirection) (nullsFirst : Bool) (v w : String) : Prop :=
  match present v, present w with
  | some v, some w =>
      if lengthBytes v = lengthBytes w then Comparable (asBytes v) (asBytes w) ↔ direction = .desc
      else
        lexCompare (lengthBytes v) (lengthBytes w) =
          directed direction (keyOrder (asBytes v) (asBytes w))
  | none, none => True
  | _, _ => nullsFirst = true

/-- The first column in which the values differ decides. -/
def OrderKept : List IndexColumn → List String → List String → Prop
  | columns, v :: vs, w :: ws =>
      if present v = present w then OrderKept columns.tail vs ws
      else ColumnKept (headDirection columns) (headNullsFirst columns) v w
  | _, _, _ => True

theorem headDirection_asc {columns : List IndexColumn} (h : ∀ c ∈ columns, c.direction = .asc) :
    headDirection columns = .asc := by
  cases columns with
  | nil => rfl
  | cons c columns => exact h c List.mem_cons_self

/-- Two values that are no nulls and have the same width. -/
structure SameWidth (v w : String) : Prop where
  left : ¬NullText v
  right : ¬NullText w
  width : (asBytes v).length = (asBytes w).length

theorem SameWidth.columnKept {v w : String} (h : SameWidth v w) (nullsFirst : Bool) (hne : v ≠ w) :
    ColumnKept .asc nullsFirst v w := by
  unfold ColumnKept present
  rw [if_neg h.left, if_neg h.right]
  have hlength : lengthBytes v = lengthBytes w := congrArg (toLeBytes 4) h.width
  show ite _ _ _
  rw [if_pos hlength]
  refine iff_of_false ?_ nofun
  rintro (hleads | hleads)
  · exact hne (asBytes_inj.mp (hleads.eq_of_length h.width))
  · exact hne (asBytes_inj.mp (hleads.eq_of_length h.width.symm)).symm

/-- Ascending columns of a fixed width. -/
theorem orderKept_of_sameWidth {columns : List IndexColumn} {values others : List String}
    (hasc : ∀ c ∈ columns, c.direction = .asc) (h : List.Forall₂ SameWidth values others) :
    OrderKept columns values others := by
  induction h generalizing columns with
  | nil => trivial
  | cons hvw hrest ih =>
      rw [OrderKept]
      split
      · exact ih fun c hc => hasc c (List.mem_of_mem_tail hc)
      · rw [headDirection_asc hasc]
        exact hvw.columnKept _ fun heq => ‹¬_› (congrArg present heq)

/-- Two values whose lengths are written with the same bytes. -/
theorem prefixLast_eq_directed_iff {direction : SortDirection} {v w : String} (hne : v ≠ w) :
    prefixLast (asBytes v) (asBytes w) = directed direction (keyOrder (asBytes v) (asBytes w)) ↔
      (Comparable (asBytes v) (asBytes w) ↔ direction = .desc) := by
  have horder : keyOrder (asBytes v) (asBytes w) ≠ .eq :=
    fun heq => hne (asBytes_inj.mp (lexCompare_eq_iff.mp heq))
  rcases Classical.em (Comparable (asBytes v) (asBytes w)) with hleads | hleads
  · rw [prefixLast_of_comparable hleads, iff_true_left hleads]
    cases direction with
    | desc => exact iff_of_true rfl rfl
    | asc => exact iff_of_false (fun heq => horder (swap_eq_self_iff.mp heq)) nofun
  · rw [prefixLast_of_not_comparable hleads, iff_false_left hleads]
    cases direction with
    | desc => exact iff_of_false (fun heq => horder (swap_eq_self_iff.mp heq.symm)) (fun h => h rfl)
    | asc => exact iff_of_true rfl nofun

theorem storedOrder_eq_valueOrder_iff {direction : SortDirection} {nullsFirst : Bool}
    {v w : String} (hne : present v ≠ present w) :
    storedOrder v w = valueOrder direction nullsFirst v w ↔
      ColumnKept direction nullsFirst v w := by
  unfold storedOrder valueOrder ColumnKept
  cases hv : present v with
  | none =>
      cases hw : present w with
      | none => exact absurd (hv.trans hw.symm) hne
      | some w' =>
          cases nullsFirst with
          | false => exact iff_of_false nofun nofun
          | true => exact iff_of_true rfl rfl
  | some v' =>
      cases hw : present w with
      | none =>
          cases nullsFirst with
          | false => exact iff_of_false nofun nofun
          | true => exact iff_of_true rfl rfl
      | some w' =>
          have hdiffer : v' ≠ w' := by
            rintro rfl
            exact hne (hv.trans hw.symm)
          show (lexCompare (lengthBytes v') (lengthBytes w')).then _ = _ ↔ ite _ _ _
          split
          · rw [lexCompare_eq_iff.mpr ‹_›]
            exact prefixLast_eq_directed_iff hdiffer
          · rw [then_eq_left fun heq => ‹¬_› (lexCompare_eq_iff.mp heq)]
            exact Iff.rfl

theorem lexCompare_encode_iff {columns : List IndexColumn} {values others : List String}
    (hlen : values.length = others.length) :
    lexCompare (encodeIndexKey values columns) (encodeIndexKey others columns) =
        valuesOrder columns values others ↔
      OrderKept columns values others := by
  induction values generalizing columns others with
  | nil =>
      obtain rfl : others = [] := List.eq_nil_of_length_eq_zero hlen.symm
      exact iff_of_true (lexCompare_self _) trivial
  | cons v vs ih =>
      obtain ⟨w, ws, rfl⟩ := List.exists_cons_of_length_eq_add_one hlen.symm
      rw [encodeIndexKey_cons, encodeIndexKey_cons, lexCompare_column, valuesOrder,
        then_eq_then_iff (storedOrder_eq_iff.trans valueOrder_eq_iff.symm), OrderKept]
      simp only [storedOrder_eq_iff]
      split
      · exact ih (Nat.succ.inj hlen)
      · exact storedOrder_eq_valueOrder_iff ‹_›

theorem key_order_iff (index : BTreeIndex) (values others : List String)
    (hlen : values.length = others.length) :
    keyOrder (index.encodeCompositeKey values) (index.encodeCompositeKey others) =
        valuesOrder index.columns values others ↔
      OrderKept index.columns values others :=
  lexCompare_encode_iff hlen

theorem key_order_iff_same_length :
    keyOrder ((⟨[]⟩ : BTreeIndex).encodeCompositeKey ["a", "b"])
        ((⟨[]⟩ : BTreeIndex).encodeCompositeKey ["a", "c"]) =
      valuesOrder [] ["a", "b"] ["a", "c"] := by
  have hfirst : SameWidth "a" "a" := ⟨by decide, by decide, rfl⟩
  have hsecond : SameWidth "b" "c" := ⟨by decide, by decide, by decide⟩
  exact (key_order_iff ⟨[]⟩ ["a", "b"] ["a", "c"] rfl).mpr
    (orderKept_of_sameWidth nofun (.cons hfirst (.cons hsecond .nil)))

/-- A short value comes before a long one, a descending column is not turned round, and a null
that is to come last comes first. -/
theorem key_order_ne_values_order :
    (keyOrder ((⟨[⟨"c", .asc, false⟩]⟩ : BTreeIndex).encodeCompositeKey ["b"])
        ((⟨[⟨"c", .asc, false⟩]⟩ : BTreeIndex).encodeCompositeKey ["aa"]) = .lt ∧
      valuesOrder [⟨"c", .asc, false⟩] ["b"] ["aa"] = .gt) ∧
    (keyOrder ((⟨[⟨"c", .desc, false⟩]⟩ : BTreeIndex).encodeCompositeKey ["a"])
        ((⟨[⟨"c", .desc, false⟩]⟩ : BTreeIndex).encodeCompositeKey ["b"]) = .lt ∧
      valuesOrder [⟨"c", .desc, false⟩] ["a"] ["b"] = .gt) ∧
    keyOrder ((⟨[⟨"c", .asc, false⟩]⟩ : BTreeIndex).encodeCompositeKey ["NULL"])
        ((⟨[⟨"c", .asc, false⟩]⟩ : BTreeIndex).encodeCompositeKey ["a"]) = .lt ∧
      valuesOrder [⟨"c", .asc, false⟩] ["NULL"] ["a"] = .gt := by
  decide

end Kept

end PostgressRs.Executor.KeyOrder
