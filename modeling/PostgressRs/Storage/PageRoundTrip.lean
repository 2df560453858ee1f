import Mathlib.Logic.Relation
import PostgressRs.Storage.SlottedPage

/-!
The heap page codec round trip.  The invariant ties slot order, flags,
`pd_lower`, `pd_upper` and the total live length together.
-/

namespace PostgressRs.Storage.PageRoundTrip

open PostgressRs.Lib.ByteBuffer
open PostgressRs.Storage.SlottedPage

theorem lpRedirect_ne_lpNormal : lpRedirect ≠ lpNormal := by decide

theorem lpDead_ne_lpNormal : lpDead ≠ lpNormal := by decide

theorem pageHeader_serialize_length (header : PageHeader) :
    header.serialize.length = pageHeaderSize := by
  simp [PageHeader.serialize, pageHeaderSize]

theorem linePointer_serialize_length (lp : LinePointer) :
    lp.serialize.length = linePointerSize := by
  simp [LinePointer.serialize, linePointerSize]

theorem fromLeBytes_uint16 (x : UInt16) :
    UInt16.ofNat (fromLeBytes (toLeBytes 2 x.toNat)) = x := by
  rw [fromLeBytes_toLeBytes _ _ x.toNat_lt, UInt16.ofNat_toNat]

theorem fromLeBytes_uint32 (x : UInt32) :
    UInt32.ofNat (fromLeBytes (toLeBytes 4 x.toNat)) = x := by
  rw [fromLeBytes_toLeBytes _ _ x.toNat_lt, UInt32.ofNat_toNat]

theorem fromLeBytes_uint64 (x : UInt64) :
    UInt64.ofNat (fromLeBytes (toLeBytes 8 x.toNat)) = x := by
  rw [fromLeBytes_toLeBytes _ _ x.toNat_lt, UInt64.ofNat_toNat]

theorem pageHeader_deserialize_serialize (header : PageHeader) (rest : Bytes) :
    PageHeader.deserialize (header.serialize ++ rest) = some header := by
  simp (disch := simp) [PageHeader.deserialize, PageHeader.serialize, slice_append_right,
    slice_prefix, fromLeBytes_uint16, fromLeBytes_uint32, fromLeBytes_uint64]

theorem linePointer_deserialize_serialize (lp : LinePointer) :
    LinePointer.deserialize lp.serialize = some lp := by
  have hflags : slice (toLeBytes 2 lp.lpFlags.toNat) 0 2 =
      some (toLeBytes 2 lp.lpFlags.toNat) := by
    simpa using slice_prefix (toLeBytes 2 lp.lpFlags.toNat) [] 2 (by simp)
  simp (disch := simp) [LinePointer.deserialize, LinePointer.serialize, slice_append_right,
    slice_prefix, fromLeBytes_uint16, hflags]

/-- The tuples in normal slots, in slot order. -/
def normalTuples : List LinePointer → List Bytes → List Bytes
  | lp :: lps, tuple :: tuples =>
      if lp.lpFlags = lpNormal then tuple :: normalTuples lps tuples
      else normalTuples lps tuples
  | _, _ => []

/-- The line pointers `serialize` stores when the next tuple ends at `stop`. -/
def relocate : List LinePointer → List Bytes → Nat → List LinePointer
  | lp :: lps, tuple :: tuples, stop =>
      if lp.lpFlags = lpNormal then
        { lp with lpOffset := UInt16.ofNat (stop - tuple.length) } ::
          relocate lps tuples (stop - tuple.length)
      else { lp with lpOffset := 0 } :: relocate lps tuples stop
  | _, _, _ => []

/-- The tuples `deserialize` restores: slots that are not normal come back empty. -/
def restored : List LinePointer → List Bytes → List Bytes
  | lp :: lps, tuple :: tuples =>
      (if lp.lpFlags = lpNormal then tuple else []) :: restored lps tuples
  | _, _ => []

/-- Every tuple in a normal slot satisfies `P`. -/
def NormalAll (P : Bytes → Prop) (lps : List LinePointer) (tuples : List Bytes) : Prop :=
  ∀ (slot : Nat) (lp : LinePointer) (tuple : Bytes), lps[slot]? = some lp →
    tuples[slot]? = some tuple → lp.lpFlags = lpNormal → P tuple

theorem normalAll_tail {P : Bytes → Prop} {lp : LinePointer} {lps : List LinePointer}
    {tuple : Bytes} {tuples : List Bytes} (h : NormalAll P (lp :: lps) (tuple :: tuples)) :
    NormalAll P lps tuples := by
  intro slot lp' tuple' hlp htuple
  exact h (slot + 1) lp' tuple' (by simpa using hlp) (by simpa using htuple)

theorem flatten_normalTuples_length (lps : List LinePointer) (tuples : List Bytes) :
    (normalTuples lps tuples).reverse.flatten.length = HeapPage.totalLen lps tuples := by
  induction lps generalizing tuples with
  | nil => simp [normalTuples, HeapPage.totalLen]
  | cons lp lps ih =>
      cases tuples with
      | nil => simp [normalTuples, HeapPage.totalLen]
      | cons tuple tuples =>
          have htail := ih tuples
          by_cases hnormal : lp.lpFlags = lpNormal
          · simp only [normalTuples, HeapPage.totalLen, hnormal, if_true, List.reverse_cons,
              List.flatten_append, List.length_append]
            simp [htail, Nat.add_comm]
          · simpa [normalTuples, HeapPage.totalLen, hnormal] using htail

theorem relocate_length (lps : List LinePointer) (tuples : List Bytes) (stop : Nat)
    (hlen : tuples.length = lps.length) : (relocate lps tuples stop).length = lps.length := by
  induction lps generalizing tuples stop with
  | nil => simp [relocate]
  | cons lp lps ih =>
      cases tuples with
      | nil => simp at hlen
      | cons tuple tuples =>
          have hlen' : tuples.length = lps.length := by simpa using hlen
          by_cases hnormal : lp.lpFlags = lpNormal <;> simp [relocate, hnormal, ih _ _ hlen']

/-- The tuple loop fills the page from `stop` downwards. -/
theorem writeTuples_eq (lps : List LinePointer) (tuples : List Bytes) (stop : Nat)
    (written : Bytes) (hlen : tuples.length = lps.length)
    (hnonempty : NormalAll (· ≠ []) lps tuples)
    (hfits : HeapPage.totalLen lps tuples ≤ stop) :
    HeapPage.writeTuples lps tuples (List.replicate stop 0 ++ written) stop =
      some (relocate lps tuples stop,
        List.replicate (stop - HeapPage.totalLen lps tuples) 0 ++
          (normalTuples lps tuples).reverse.flatten ++ written,
        stop - HeapPage.totalLen lps tuples) := by
  induction lps generalizing tuples stop written with
  | nil => simp [HeapPage.writeTuples, relocate, normalTuples, HeapPage.totalLen]
  | cons lp lps ih =>
      cases tuples with
      | nil => simp at hlen
      | cons tuple tuples =>
          have hlen' : tuples.length = lps.length := by simpa using hlen
          have hnonempty' := normalAll_tail hnonempty
          by_cases hnormal : lp.lpFlags = lpNormal
          · have htuple : tuple.isEmpty = false := by
              simpa using hnonempty 0 lp tuple rfl rfl hnormal
            simp only [HeapPage.totalLen, hnormal, if_true] at hfits
            have hsub : checkedSub stop tuple.length = some (stop - tuple.length) := by
              rw [checkedSub_eq_some]
              exact ⟨by omega, rfl⟩
            have hpage : List.replicate stop (0 : UInt8) ++ written =
                List.replicate (stop - tuple.length) 0 ++
                  List.replicate tuple.length 0 ++ written := by
              rw [List.replicate_append_replicate]
              congr 2
              omega
            have hcopy : copyFromSlice (List.replicate stop 0 ++ written)
                (stop - tuple.length) tuple =
                  some (List.replicate (stop - tuple.length) 0 ++ (tuple ++ written)) := by
              rw [hpage, copyFromSlice_append _ _ _ _ _ (by simp) (by simp), List.append_assoc]
            have hrest := ih tuples (stop - tuple.length) (tuple ++ written) hlen' hnonempty'
              (by omega)
            have hstop : stop - tuple.length - HeapPage.totalLen lps tuples =
                stop - (tuple.length + HeapPage.totalLen lps tuples) := by omega
            simp [HeapPage.writeTuples, hnormal, htuple, hsub, hcopy, hrest, relocate,
              normalTuples, HeapPage.totalLen, hstop]
          · simp only [HeapPage.totalLen, hnormal, if_false, Nat.zero_add] at hfits
            have hrest := ih tuples stop written hlen' hnonempty' hfits
            simp [HeapPage.writeTuples, hnormal, hrest, relocate, normalTuples,
              HeapPage.totalLen]

theorem flatMap_serialize_length (lps : List LinePointer) :
    (lps.flatMap LinePointer.serialize).length = lps.length * linePointerSize := by
  induction lps with
  | nil => simp
  | cons lp lps ih =>
      simp only [List.flatMap_cons, List.length_append, ih, linePointer_serialize_length,
        List.length_cons]
      ring

theorem writeLinePointers_eq (lps : List LinePointer) (before window after : Bytes)
    (offset : Nat) (hoffset : offset = before.length)
    (hwindow : window.length = lps.length * linePointerSize) :
    HeapPage.writeLinePointers lps (before ++ window ++ after) offset =
      some (before ++ lps.flatMap LinePointer.serialize ++ after) := by
  induction lps generalizing before window offset with
  | nil =>
      have hnil : window = [] := List.eq_nil_of_length_eq_zero (by simpa using hwindow)
      simp [HeapPage.writeLinePointers, hnil]
  | cons lp lps ih =>
      have hlen : linePointerSize ≤ window.length := by
        rw [hwindow, List.length_cons, Nat.add_mul]
        omega
      have hsplit : before ++ window ++ after =
          before ++ window.take linePointerSize ++
            (window.drop linePointerSize ++ after) := by
        rw [List.append_assoc, List.append_assoc, ← List.append_assoc (window.take _),
          List.take_append_drop]
      have hcopy : copyFromSlice (before ++ window ++ after) offset lp.serialize =
          some (before ++ lp.serialize ++ (window.drop linePointerSize ++ after)) := by
        rw [hsplit, copyFromSlice_append _ _ _ _ _ hoffset]
        rw [linePointer_serialize_length, List.length_take]
        omega
      have hrest := ih (before ++ lp.serialize) (window.drop linePointerSize)
        (offset + linePointerSize)
        (by rw [List.length_append, linePointer_serialize_length, hoffset])
        (by rw [List.length_drop, hwindow, List.length_cons, Nat.add_mul]; omega)
      simp only [HeapPage.writeLinePointers, hcopy, Option.bind_eq_bind, Option.bind_some]
      simpa using hrest

theorem readLinePointers_eq (lps : List LinePointer) (before after : Bytes) (offset : Nat)
    (hoffset : offset = before.length) :
    HeapPage.readLinePointers (before ++ lps.flatMap LinePointer.serialize ++ after)
      lps.length offset = some lps := by
  induction lps generalizing before offset with
  | nil => rfl
  | cons lp lps ih =>
      have hslice : slice (before ++ (lp :: lps).flatMap LinePointer.serialize ++ after)
          offset (offset + linePointerSize) = some lp.serialize := by
        have hdata : before ++ (lp :: lps).flatMap LinePointer.serialize ++ after =
            before ++ lp.serialize ++ (lps.flatMap LinePointer.serialize ++ after) := by
          simp
        rw [hdata]
        exact slice_append _ _ _ _ _ hoffset
          (by rw [linePointer_serialize_length, hoffset])
      have hrest := ih (before ++ lp.serialize) (offset + linePointerSize)
        (by rw [List.length_append, linePointer_serialize_length, hoffset])
      simp only [List.length_cons, HeapPage.readLinePointers, hslice,
        Option.bind_eq_bind, Option.bind_some, linePointer_deserialize_serialize]
      have hdata : before ++ lp.serialize ++ lps.flatMap LinePointer.serialize ++ after =
          before ++ (lp :: lps).flatMap LinePointer.serialize ++ after := by
        simp
      rw [hdata] at hrest
      rw [hrest]
      rfl

/-- Reading back: each tuple ends where the tuple written before it starts. -/
theorem readTuples_eq (header : PageHeader) (lps : List LinePointer) (tuples : List Bytes)
    (seen : List LinePointer) (front after : Bytes) (stop : Nat)
    (hlen : tuples.length = lps.length) (hnonempty : NormalAll (· ≠ []) lps tuples)
    (hstop : stop = front.length + HeapPage.totalLen lps tuples) (hbound : stop ≤ pageSize)
    (hend : HeapPage.tupleEnd header seen = stop) :
    HeapPage.readTuples (front ++ (normalTuples lps tuples).reverse.flatten ++ after) header
      seen (relocate lps tuples stop) = some (restored lps tuples) := by
  induction lps generalizing tuples seen after stop with
  | nil => simp [relocate, HeapPage.readTuples, restored]
  | cons lp lps ih =>
      cases tuples with
      | nil => simp at hlen
      | cons tuple tuples =>
          have hlen' : tuples.length = lps.length := by simpa using hlen
          have hnonempty' := normalAll_tail hnonempty
          by_cases hnormal : lp.lpFlags = lpNormal
          · have htuple : 0 < tuple.length := List.length_pos_iff.mpr
              (hnonempty 0 lp tuple rfl rfl hnormal)
            simp only [HeapPage.totalLen, hnormal, if_true] at hstop
            have hstart : (UInt16.ofNat (stop - tuple.length)).toNat = stop - tuple.length := by
              rw [UInt16.toNat_ofNat']
              exact Nat.mod_eq_of_lt (by simp only [pageSize] at hbound; omega)
            have hdata : front ++ (normalTuples (lp :: lps) (tuple :: tuples)).reverse.flatten ++
                after = front ++ (normalTuples lps tuples).reverse.flatten ++
                  (tuple ++ after) := by
              simp [normalTuples, hnormal]
            have hslice : slice (front ++ (normalTuples lps tuples).reverse.flatten ++
                (tuple ++ after)) (stop - tuple.length) stop = some tuple := by
              rw [← List.append_assoc]
              apply slice_append
              · rw [List.length_append, flatten_normalTuples_length]
                omega
              · rw [List.length_append, flatten_normalTuples_length]
                omega
            have hrest := ih tuples
              ({ lp with lpOffset := UInt16.ofNat (stop - tuple.length) } :: seen)
              (tuple ++ after) (stop - tuple.length) hlen' hnonempty' (by omega) (by omega)
              (by simp [HeapPage.tupleEnd, hnormal, hstart])
            have hlt : stop - tuple.length < stop := by omega
            rw [hdata]
            generalize front ++ (normalTuples lps tuples).reverse.flatten ++
              (tuple ++ after) = data at hslice hrest ⊢
            rw [hnormal] at hrest
            simp [relocate, hnormal, HeapPage.readTuples, hstart, hend, hlt, hbound, hslice,
              hrest, restored]
          · simp only [HeapPage.totalLen, hnormal, if_false, Nat.zero_add] at hstop
            have hrest := ih tuples ({ lp with lpOffset := 0 } :: seen) after stop hlen'
              hnonempty' hstop hbound (by
                rw [← hend]
                simp [HeapPage.tupleEnd, hnormal])
            have hdata : (normalTuples (lp :: lps) (tuple :: tuples)) =
                normalTuples lps tuples := by simp [normalTuples, hnormal]
            rw [hdata]
            generalize front ++ (normalTuples lps tuples).reverse.flatten ++ after =
              data at hrest ⊢
            simp [relocate, hnormal, HeapPage.readTuples, hrest, restored]

/-- What every mutation of a page preserves. -/
structure WellFormed (page : HeapPage) : Prop where
  length_eq : page.tuples.length = page.linePointers.length
  nonempty : NormalAll (· ≠ []) page.linePointers page.tuples
  lower_eq : page.header.pdLower.toNat =
    pageHeaderSize + page.linePointers.length * linePointerSize
  special_eq : page.header.pdSpecial.toNat = pageSize
  lower_le_upper : page.header.pdLower.toNat ≤ page.header.pdUpper.toNat
  upper_le : page.header.pdUpper.toNat +
    HeapPage.totalLen page.linePointers page.tuples ≤ pageSize

/-- The page that comes back after a `serialize` and a `deserialize`. -/
def stored (page : HeapPage) : HeapPage where
  header :=
    { page.header with
      pdUpper := UInt16.ofNat
        (pageSize - HeapPage.totalLen page.linePointers page.tuples) }
  linePointers := relocate page.linePointers page.tuples pageSize
  tuples := restored page.linePointers page.tuples

/-- The bytes of a well-formed page. -/
def image (page : HeapPage) : Bytes :=
  (stored page).header.serialize ++
    (stored page).linePointers.flatMap LinePointer.serialize ++
    List.replicate (pageSize - HeapPage.totalLen page.linePointers page.tuples -
      page.header.pdLower.toNat) 0 ++
    (normalTuples page.linePointers page.tuples).reverse.flatten

theorem toNat_ofNat_of_le (n : Nat) (h : n ≤ pageSize) : (UInt16.ofNat n).toNat = n := by
  rw [UInt16.toNat_ofNat']
  exact Nat.mod_eq_of_lt (by simp only [pageSize] at h; omega)

theorem serialize_eq_image {page : HeapPage} (h : WellFormed page) :
    page.serialize = some (image page) := by
  have htotal : HeapPage.totalLen page.linePointers page.tuples ≤ pageSize := by
    have := h.upper_le
    omega
  have hwrite := writeTuples_eq page.linePointers page.tuples pageSize [] h.length_eq
    h.nonempty htotal
  simp only [List.append_nil] at hwrite
  have hlen := relocate_length page.linePointers page.tuples pageSize h.length_eq
  have hlower := h.lower_eq
  have hroom : page.header.pdLower.toNat ≤
      pageSize - HeapPage.totalLen page.linePointers page.tuples := by
    have h1 := h.lower_le_upper
    have h2 := h.upper_le
    omega
  -- The header and the line pointers overwrite zeros only.
  have hzeros : List.replicate (pageSize - HeapPage.totalLen page.linePointers page.tuples)
      (0 : UInt8) =
        List.replicate pageHeaderSize 0 ++
          List.replicate (page.linePointers.length * linePointerSize) 0 ++
          List.replicate (pageSize - HeapPage.totalLen page.linePointers page.tuples -
            page.header.pdLower.toNat) 0 := by
    rw [List.replicate_append_replicate, List.replicate_append_replicate]
    congr 1
    omega
  have hheader : { page.header with
        pdLower := UInt16.ofNat (pageHeaderSize +
          (relocate page.linePointers page.tuples pageSize).length * linePointerSize)
        pdUpper := UInt16.ofNat
          (pageSize - HeapPage.totalLen page.linePointers page.tuples) } =
      (stored page).header := by
    rw [hlen, ← h.lower_eq, UInt16.ofNat_toNat]
    rfl
  unfold HeapPage.serialize
  simp only [hwrite, Option.bind_eq_bind, Option.bind_some, hheader, hzeros]
  generalize hgap : List.replicate (pageSize - HeapPage.totalLen page.linePointers page.tuples -
    page.header.pdLower.toNat) (0 : UInt8) = gap
  generalize hbody : (normalTuples page.linePointers page.tuples).reverse.flatten = body
  have hcopy : copyFromSlice (List.replicate pageHeaderSize (0 : UInt8) ++
      List.replicate (page.linePointers.length * linePointerSize) 0 ++ gap ++ body) 0
        (stored page).header.serialize =
      some ((stored page).header.serialize ++
        List.replicate (page.linePointers.length * linePointerSize) 0 ++ (gap ++ body)) := by
    have := copyFromSlice_append [] (List.replicate pageHeaderSize (0 : UInt8))
      (List.replicate (page.linePointers.length * linePointerSize) 0 ++ (gap ++ body))
      (stored page).header.serialize 0 rfl (by simp [pageHeader_serialize_length])
    simpa only [List.nil_append, List.append_assoc] using this
  rw [hcopy, Option.bind_some, writeLinePointers_eq]
  · simp [image, stored, hgap, hbody]
  · exact (pageHeader_serialize_length _).symm
  · rw [List.length_replicate, hlen]

theorem deserialize_image {page : HeapPage} (h : WellFormed page) :
    HeapPage.deserialize (image page) = some (stored page) := by
  have hlen : (stored page).linePointers.length = page.linePointers.length :=
    relocate_length page.linePointers page.tuples pageSize h.length_eq
  have hcount : checkedSub (stored page).header.pdLower.toNat pageHeaderSize =
      some ((stored page).linePointers.length * linePointerSize) := by
    change checkedSub page.header.pdLower.toNat pageHeaderSize = _
    rw [checkedSub_eq_some, h.lower_eq, hlen]
    omega
  have hheader : PageHeader.deserialize (image page) = some (stored page).header := by
    simp only [image, List.append_assoc]
    exact pageHeader_deserialize_serialize _ _
  have hpointers : HeapPage.readLinePointers (image page)
      ((stored page).linePointers.length * linePointerSize / linePointerSize) pageHeaderSize =
        some (stored page).linePointers := by
    rw [Nat.mul_div_cancel _ (by decide)]
    unfold image
    rw [List.append_assoc _ (List.replicate _ 0)]
    exact readLinePointers_eq _ _ _ _ (pageHeader_serialize_length _).symm
  have hfront : ((stored page).header.serialize ++
      (stored page).linePointers.flatMap LinePointer.serialize ++
      List.replicate (pageSize - HeapPage.totalLen page.linePointers page.tuples -
        page.header.pdLower.toNat) 0).length =
      pageSize - HeapPage.totalLen page.linePointers page.tuples := by
    rw [List.length_append, List.length_append, pageHeader_serialize_length,
      flatMap_serialize_length, List.length_replicate, hlen]
    have h1 := h.lower_eq
    have h2 := h.lower_le_upper
    have h3 := h.upper_le
    omega
  have htuples : HeapPage.readTuples (image page) (stored page).header []
      (stored page).linePointers = some (restored page.linePointers page.tuples) := by
    have hread := readTuples_eq (stored page).header page.linePointers page.tuples [] _ []
      pageSize h.length_eq h.nonempty
      (by rw [hfront]; have := h.upper_le; omega) le_rfl
      (by simpa [HeapPage.tupleEnd, stored] using h.special_eq)
    rw [List.append_nil] at hread
    exact hread
  simp only [HeapPage.deserialize, hheader, hcount, hpointers, htuples, Option.bind_eq_bind,
    Option.bind_some]
  rfl

section Slots

variable {P : Bytes → Prop} {lps : List LinePointer} {tuples : List Bytes}

theorem totalLen_append (lps' : List LinePointer) (tuples' : List Bytes)
    (hlen : tuples.length = lps.length) :
    HeapPage.totalLen (lps ++ lps') (tuples ++ tuples') =
      HeapPage.totalLen lps tuples + HeapPage.totalLen lps' tuples' := by
  induction lps generalizing tuples with
  | nil =>
      have hnil : tuples = [] := List.eq_nil_of_length_eq_zero (by simpa using hlen)
      simp [hnil, HeapPage.totalLen]
  | cons lp lps ih =>
      cases tuples with
      | nil => simp at hlen
      | cons tuple tuples =>
          have htail := @ih tuples (by simpa using hlen)
          simp only [List.cons_append, HeapPage.totalLen, htail]
          omega

/-- Changing one slot frees at most its old tuple and takes at most the new one. -/
theorem totalLen_set_le (lps : List LinePointer) (tuples : List Bytes) (i : Nat)
    (lp : LinePointer) (tuple : Bytes) :
    HeapPage.totalLen (lps.set i lp) (tuples.set i tuple) ≤
      HeapPage.totalLen lps tuples + (if lp.lpFlags = lpNormal then tuple.length else 0) := by
  induction lps generalizing tuples i with
  | nil => simp [HeapPage.totalLen]
  | cons lp' lps ih =>
      cases tuples with
      | nil => simp [HeapPage.totalLen]
      | cons tuple' tuples =>
          cases i with
          | zero =>
              simp only [List.set_cons_zero, HeapPage.totalLen]
              omega
          | succ i =>
              have htail := ih tuples i
              simp only [List.set_cons_succ, HeapPage.totalLen]
              omega

theorem totalLen_set_retired_le (lps : List LinePointer) (tuples : List Bytes) (i : Nat)
    (lp : LinePointer) (hflags : lp.lpFlags ≠ lpNormal) :
    HeapPage.totalLen (lps.set i lp) tuples ≤ HeapPage.totalLen lps tuples := by
  induction lps generalizing tuples i with
  | nil => simp [HeapPage.totalLen]
  | cons lp' lps ih =>
      cases tuples with
      | nil => cases i <;> simp [HeapPage.totalLen]
      | cons tuple' tuples =>
          cases i with
          | zero => simp [HeapPage.totalLen, hflags]
          | succ i =>
              have htail := ih tuples i
              simp only [List.set_cons_succ, HeapPage.totalLen]
              omega

theorem totalLen_set_tuple {i : Nat} {old tuple : Bytes} (hold : tuples[i]? = some old)
    (hlen : tuple.length = old.length) :
    HeapPage.totalLen lps (tuples.set i tuple) = HeapPage.totalLen lps tuples := by
  induction lps generalizing tuples i with
  | nil => simp [HeapPage.totalLen]
  | cons lp' lps ih =>
      cases tuples with
      | nil => simp at hold
      | cons tuple' tuples =>
          cases i with
          | zero =>
              have heq : tuple' = old := by simpa using hold
              simp [HeapPage.totalLen, hlen, heq]
          | succ i =>
              have htail := @ih tuples i (by simpa using hold)
              simp [HeapPage.totalLen, htail]

theorem normalAll_append (lp : LinePointer) (tuple : Bytes)
    (hlen : tuples.length = lps.length) (h : NormalAll P lps tuples) (htuple : P tuple) :
    NormalAll P (lps ++ [lp]) (tuples ++ [tuple]) := by
  intro slot lp' tuple' hlp' htuple' hnormal
  by_cases hslot : slot < lps.length
  · rw [List.getElem?_append_left hslot] at hlp'
    rw [List.getElem?_append_left (by omega)] at htuple'
    exact h slot lp' tuple' hlp' htuple' hnormal
  · rw [List.getElem?_append_right (by omega), hlen] at htuple'
    have hmem := List.mem_of_getElem? htuple'
    rw [List.mem_singleton] at hmem
    exact hmem ▸ htuple

theorem normalAll_set (i : Nat) (lp : LinePointer) (tuple : Bytes)
    (h : NormalAll P lps tuples) (htuple : P tuple) :
    NormalAll P (lps.set i lp) (tuples.set i tuple) := by
  intro slot lp' tuple' hlp' htuple' hnormal
  rw [List.getElem?_set] at hlp' htuple'
  by_cases hslot : i = slot
  · simp only [hslot, if_true] at htuple'
    split at htuple'
    · cases htuple'
      exact htuple
    · simp at htuple'
  · simp only [hslot, if_false] at hlp' htuple'
    exact h slot lp' tuple' hlp' htuple' hnormal

theorem normalAll_set_retired (i : Nat) (lp : LinePointer)
    (hflags : lp.lpFlags ≠ lpNormal) (h : NormalAll P lps tuples) :
    NormalAll P (lps.set i lp) tuples := by
  intro slot lp' tuple' hlp' htuple' hnormal
  rw [List.getElem?_set] at hlp'
  by_cases hslot : i = slot
  · simp only [hslot, if_true] at hlp'
    split at hlp'
    · cases hlp'
      exact absurd hnormal hflags
    · simp at hlp'
  · simp only [hslot, if_false] at hlp'
    exact h slot lp' tuple' hlp' htuple' hnormal

theorem normalAll_set_tuple {i : Nat} {tuple : Bytes} (h : NormalAll P lps tuples)
    (htuple : ∀ lp, lps[i]? = some lp → lp.lpFlags = lpNormal → P tuple) :
    NormalAll P lps (tuples.set i tuple) := by
  intro slot lp' tuple' hlp' htuple' hnormal
  rw [List.getElem?_set] at htuple'
  by_cases hslot : i = slot
  · simp only [hslot, if_true] at htuple'
    split at htuple'
    · cases htuple'
      exact htuple lp' (hslot ▸ hlp') hnormal
    · simp at htuple'
  · simp only [hslot, if_false] at htuple'
    exact h slot lp' tuple' hlp' htuple' hnormal

end Slots

theorem wellFormed_new : WellFormed HeapPage.new where
  length_eq := rfl
  nonempty := by simp [NormalAll, HeapPage.new]
  lower_eq := by decide
  special_eq := by decide
  lower_le_upper := by decide
  upper_le := by decide

/-- What a call of `addTuple` that does not panic returns. -/
theorem addTuple_cases {page page' : HeapPage} {tuple : Bytes} {slot : Option UInt16}
    (h : page.addTuple tuple = some (page', slot)) :
    tuple.length ≤ page.header.pdUpper.toNat ∧
    ((page' = page ∧ slot = none ∧
        page.header.pdUpper.toNat - tuple.length < page.header.pdLower.toNat + linePointerSize) ∨
      (∃ i, page.linePointers.findIdx? (fun lp => lp.lpFlags = lpDead) = some i ∧
        slot = some (UInt16.ofNat i) ∧
        page.header.pdLower.toNat ≤ page.header.pdUpper.toNat - tuple.length ∧
        page' =
          { header :=
              { page.header with
                pdUpper := UInt16.ofNat (page.header.pdUpper.toNat - tuple.length) }
            linePointers := page.linePointers.set (UInt16.ofNat i).toNat
              (LinePointer.new (UInt16.ofNat (page.header.pdUpper.toNat - tuple.length)))
            tuples := page.tuples.set (UInt16.ofNat i).toNat tuple }) ∨
      (page.linePointers.findIdx? (fun lp => lp.lpFlags = lpDead) = none ∧
        slot = some (UInt16.ofNat page.linePointers.length) ∧
        page.header.pdLower.toNat + linePointerSize ≤
          page.header.pdUpper.toNat - tuple.length ∧
        page' =
          { header :=
              { page.header with
                pdLower := UInt16.ofNat (page.header.pdLower.toNat + linePointerSize)
                pdUpper := UInt16.ofNat (page.header.pdUpper.toNat - tuple.length) }
            linePointers := page.linePointers ++
              [LinePointer.new (UInt16.ofNat (page.header.pdUpper.toNat - tuple.length))]
            tuples := page.tuples ++ [tuple] })) := by
  unfold HeapPage.addTuple at h
  cases hsub : checkedSub page.header.pdUpper.toNat tuple.length with
  | none => simp [hsub] at h
  | some newUpper =>
      obtain ⟨hle, rfl⟩ := checkedSub_eq_some.mp hsub
      refine ⟨hle, ?_⟩
      simp only [hsub, Option.bind_eq_bind, Option.bind_some] at h
      cases hfind : page.linePointers.findIdx? (fun lp => lp.lpFlags = lpDead) with
      | none =>
          simp only [hfind, Option.map_none, Option.isNone_none, if_true] at h
          split at h
          · rename_i hfull
            cases h
            exact Or.inl ⟨rfl, rfl, hfull⟩
          · rename_i hroom
            cases h
            exact Or.inr (Or.inr ⟨rfl, rfl, by omega, rfl⟩)
      | some i =>
          simp only [hfind, Option.map_some, Option.isNone_some, Bool.false_eq_true,
            if_false] at h
          split at h
          · rename_i hfull
            cases h
            exact Or.inl ⟨rfl, rfl, by omega⟩
          · rename_i hroom
            cases h
            exact Or.inr (Or.inl ⟨i, rfl, rfl, by omega, rfl⟩)

theorem addTuple_refused {page page' : HeapPage} {tuple : Bytes}
    (h : page.addTuple tuple = some (page', none)) : page' = page := by
  obtain ⟨_, ⟨hsame, _, _⟩ | ⟨i, _, hslot, _⟩ | ⟨_, hslot, _⟩⟩ := addTuple_cases h
  · exact hsame
  · cases hslot
  · cases hslot

theorem wellFormed_append {page : HeapPage} {tuple : Bytes} (hpage : WellFormed page)
    (htuple : tuple ≠ []) (hle : tuple.length ≤ page.header.pdUpper.toNat)
    (hroom : page.header.pdLower.toNat + linePointerSize ≤
      page.header.pdUpper.toNat - tuple.length) :
    WellFormed
      { header :=
          { page.header with
            pdLower := UInt16.ofNat (page.header.pdLower.toNat + linePointerSize)
            pdUpper := UInt16.ofNat (page.header.pdUpper.toNat - tuple.length) }
        linePointers := page.linePointers ++
          [LinePointer.new (UInt16.ofNat (page.header.pdUpper.toNat - tuple.length))]
        tuples := page.tuples ++ [tuple] } := by
  have hbound := hpage.upper_le
  have hupper := toNat_ofNat_of_le (page.header.pdUpper.toNat - tuple.length) (by omega)
  have hlower := toNat_ofNat_of_le (page.header.pdLower.toNat + linePointerSize) (by omega)
  refine ⟨?_, normalAll_append _ _ hpage.length_eq hpage.nonempty htuple, ?_,
    hpage.special_eq, ?_, ?_⟩
  · simpa using hpage.length_eq
  · have := hpage.lower_eq
    simp only [hlower, List.length_append, List.length_singleton, Nat.add_mul, Nat.one_mul]
    omega
  · simp only [hupper, hlower]
    exact hroom
  · simp only [hupper]
    rw [totalLen_append _ _ hpage.length_eq]
    simp only [HeapPage.totalLen, LinePointer.new, if_true]
    omega

theorem wellFormed_addTuple {page page' : HeapPage} {tuple : Bytes} {slot : Option UInt16}
    (hpage : WellFormed page) (htuple : tuple ≠ [])
    (h : page.addTuple tuple = some (page', slot)) : WellFormed page' := by
  obtain ⟨hle, ⟨rfl, -, -⟩ | ⟨i, -, -, hroom, rfl⟩ | ⟨-, -, hroom, rfl⟩⟩ := addTuple_cases h
  · exact hpage
  · have hbound := hpage.upper_le
    have hupper := toNat_ofNat_of_le (page.header.pdUpper.toNat - tuple.length) (by omega)
    have hset := totalLen_set_le page.linePointers page.tuples
      (UInt16.ofNat i).toNat (LinePointer.new (UInt16.ofNat
        (page.header.pdUpper.toNat - tuple.length))) tuple
    simp only [LinePointer.new, if_true] at hset
    refine ⟨?_, normalAll_set _ _ _ hpage.nonempty htuple, ?_, hpage.special_eq, ?_, ?_⟩
    · simpa using hpage.length_eq
    · simpa using hpage.lower_eq
    · simp only [hupper]
      exact hroom
    · simp only [hupper, LinePointer.new]
      omega
  · exact wellFormed_append hpage htuple hle hroom

/-- What a call of `hotUpdate` that does not panic returns. -/
theorem hotUpdate_cases {page page' : HeapPage} {old : UInt16} {tuple : Bytes}
    {slot : Option UInt16} (h : page.hotUpdate old tuple = some (page', slot)) :
    (page' = page ∧ slot = none) ∨
      (∃ lp, page.linePointers[old.toNat]? = some lp ∧ lp.lpFlags = lpNormal ∧
        tuple.length ≤ page.header.pdUpper.toNat ∧
        page.header.pdLower.toNat + linePointerSize ≤
          page.header.pdUpper.toNat - tuple.length ∧
        slot = some (UInt16.ofNat page.linePointers.length) ∧
        page' =
          { header :=
              { page.header with
                pdLower := UInt16.ofNat (page.header.pdLower.toNat + linePointerSize)
                pdUpper := UInt16.ofNat (page.header.pdUpper.toNat - tuple.length) }
            linePointers := (page.linePointers ++
                [LinePointer.new (UInt16.ofNat
                  (page.header.pdUpper.toNat - tuple.length))]).set old.toNat
              ⟨UInt16.ofNat page.linePointers.length, lpRedirect⟩
            tuples := page.tuples ++ [tuple] }) := by
  unfold HeapPage.hotUpdate at h
  split at h
  · cases h
    exact Or.inl ⟨rfl, rfl⟩
  · rename_i lp hlp
    split at h
    · cases h
      exact Or.inl ⟨rfl, rfl⟩
    · rename_i hflags
      cases hsub : checkedSub page.header.pdUpper.toNat tuple.length with
      | none => simp [hsub] at h
      | some newUpper =>
          obtain ⟨hle, rfl⟩ := checkedSub_eq_some.mp hsub
          simp only [hsub, Option.bind_eq_bind, Option.bind_some] at h
          split at h
          · cases h
            exact Or.inl ⟨rfl, rfl⟩
          · cases h
            exact Or.inr ⟨lp, hlp, by simpa using hflags, hle, by omega, rfl, rfl⟩

/-- Taking a slot out of use keeps a page well formed. -/
theorem wellFormed_retire {page : HeapPage} (hpage : WellFormed page) (i : Nat)
    (lp : LinePointer) (hflags : lp.lpFlags ≠ lpNormal) :
    WellFormed { page with linePointers := page.linePointers.set i lp } := by
  have htotal := totalLen_set_retired_le page.linePointers page.tuples i lp hflags
  refine ⟨?_, normalAll_set_retired i lp hflags hpage.nonempty, ?_, hpage.special_eq,
    hpage.lower_le_upper, ?_⟩
  · simpa using hpage.length_eq
  · simpa using hpage.lower_eq
  · have := hpage.upper_le
    simp only
    omega

theorem wellFormed_hotUpdate {page page' : HeapPage} {old : UInt16} {tuple : Bytes}
    {slot : Option UInt16} (hpage : WellFormed page) (htuple : tuple ≠ [])
    (h : page.hotUpdate old tuple = some (page', slot)) : WellFormed page' := by
  obtain ⟨rfl, -⟩ | ⟨lp, -, -, hle, hroom, -, rfl⟩ := hotUpdate_cases h
  · exact hpage
  · exact wellFormed_retire (wellFormed_append hpage htuple hle hroom) old.toNat
      ⟨UInt16.ofNat page.linePointers.length, lpRedirect⟩ lpRedirect_ne_lpNormal

theorem wellFormed_markDead {page : HeapPage} (hpage : WellFormed page) (slot : Nat) :
    WellFormed (page.markDead slot) := by
  unfold HeapPage.markDead
  split
  · exact wellFormed_retire hpage slot _ lpDead_ne_lpNormal
  · exact hpage

theorem wellFormed_setTuple {page : HeapPage} {slot : Nat} {old tuple : Bytes}
    (hpage : WellFormed page) (hold : page.tuples[slot]? = some old)
    (hlen : tuple.length = old.length) : WellFormed (page.setTuple slot tuple) := by
  have htotal : HeapPage.totalLen page.linePointers (page.tuples.set slot tuple) =
      HeapPage.totalLen page.linePointers page.tuples := totalLen_set_tuple hold hlen
  refine ⟨?_, normalAll_set_tuple hpage.nonempty ?_, hpage.lower_eq, hpage.special_eq,
    hpage.lower_le_upper, ?_⟩
  · simpa [HeapPage.setTuple] using hpage.length_eq
  · intro lp hlp hnormal
    have hne : old ≠ [] := hpage.nonempty slot lp old hlp hold hnormal
    rw [← List.length_pos_iff] at hne ⊢
    omega
  · simp only [HeapPage.setTuple, htotal]
    exact hpage.upper_le

theorem totalLen_liveSlots (lps : List LinePointer) (tuples : List Bytes)
    (hlen : tuples.length = lps.length) :
    HeapPage.totalLen ((HeapPage.liveSlots lps tuples).map Prod.fst)
      ((HeapPage.liveSlots lps tuples).map Prod.snd) = HeapPage.totalLen lps tuples := by
  induction lps generalizing tuples with
  | nil => simp [HeapPage.liveSlots, HeapPage.totalLen]
  | cons lp lps ih =>
      cases tuples with
      | nil => simp at hlen
      | cons tuple tuples =>
          have htail := ih tuples (by simpa using hlen)
          by_cases hdead : lp.lpFlags = lpDead
          · simpa [HeapPage.liveSlots, HeapPage.totalLen, hdead, lpDead_ne_lpNormal]
              using htail
          · simp [HeapPage.liveSlots, HeapPage.totalLen, hdead, htail]

theorem mem_liveSlots {lps : List LinePointer} {tuples : List Bytes}
    (hlen : tuples.length = lps.length) {live : LinePointer × Bytes}
    (h : live ∈ HeapPage.liveSlots lps tuples) :
    ∃ slot : Nat, lps[slot]? = some live.1 ∧ tuples[slot]? = some live.2 := by
  induction lps generalizing tuples with
  | nil => simp [HeapPage.liveSlots] at h
  | cons lp lps ih =>
      cases tuples with
      | nil => simp at hlen
      | cons tuple tuples =>
          have hlen' : tuples.length = lps.length := by simpa using hlen
          have htail : live ∈ HeapPage.liveSlots lps tuples →
              ∃ slot : Nat, (lp :: lps)[slot]? = some live.1 ∧
                (tuple :: tuples)[slot]? = some live.2 := by
            intro hmem
            obtain ⟨slot, hlp, htuple⟩ := ih hlen' hmem
            exact ⟨slot + 1, by simpa using hlp, by simpa using htuple⟩
          by_cases hdead : lp.lpFlags = lpDead
          · exact htail (by simpa [HeapPage.liveSlots, hdead] using h)
          · simp only [HeapPage.liveSlots, ne_eq, hdead, not_false_eq_true, if_true,
              List.head?_cons, Option.getD_some, List.tail_cons, List.mem_cons] at h
            rcases h with rfl | h
            · exact ⟨0, rfl, rfl⟩
            · exact htail h

theorem liveSlots_length_le (lps : List LinePointer) (tuples : List Bytes) :
    (HeapPage.liveSlots lps tuples).length ≤ lps.length := by
  induction lps generalizing tuples with
  | nil => simp [HeapPage.liveSlots]
  | cons lp lps ih =>
      have htail := ih tuples.tail
      by_cases hdead : lp.lpFlags = lpDead
      · simp only [HeapPage.liveSlots, ne_eq, hdead, not_true_eq_false, if_false,
          List.length_cons]
        omega
      · simpa [HeapPage.liveSlots, hdead] using htail

theorem normalAll_liveSlots {P : Bytes → Prop} {lps : List LinePointer} {tuples : List Bytes}
    (hlen : tuples.length = lps.length) (h : NormalAll P lps tuples) :
    NormalAll P ((HeapPage.liveSlots lps tuples).map Prod.fst)
      ((HeapPage.liveSlots lps tuples).map Prod.snd) := by
  intro slot lp tuple hlp htuple hnormal
  simp only [List.getElem?_map, Option.map_eq_some_iff] at hlp htuple
  obtain ⟨live, hlive, rfl⟩ := hlp
  obtain ⟨live', hlive', rfl⟩ := htuple
  rw [hlive] at hlive'
  cases hlive'
  obtain ⟨i, hlp, htuple⟩ := mem_liveSlots hlen (List.mem_of_getElem? hlive)
  exact h i _ _ hlp htuple hnormal

theorem wellFormed_compact {page page' : HeapPage} (hpage : WellFormed page)
    (h : page.compact = some page') : WellFormed page' := by
  have htotal := totalLen_liveSlots page.linePointers page.tuples hpage.length_eq
  have hlength := liveSlots_length_le page.linePointers page.tuples
  have hlower := hpage.lower_eq
  have hroom := hpage.lower_le_upper
  have hupper := hpage.upper_le
  unfold HeapPage.compact at h
  cases hsub : checkedSub pageSize (HeapPage.totalLen
      ((HeapPage.liveSlots page.linePointers page.tuples).map Prod.fst)
      ((HeapPage.liveSlots page.linePointers page.tuples).map Prod.snd)) with
  | none => simp [hsub] at h
  | some pdUpper =>
      obtain ⟨hle, rfl⟩ := checkedSub_eq_some.mp hsub
      simp only [hsub, Option.bind_eq_bind, Option.bind_some] at h
      cases h
      have hcount : (HeapPage.liveSlots page.linePointers page.tuples).length *
          linePointerSize ≤ page.linePointers.length * linePointerSize :=
        Nat.mul_le_mul_right _ hlength
      have hlower' := toNat_ofNat_of_le (pageHeaderSize +
        (HeapPage.liveSlots page.linePointers page.tuples).length * linePointerSize) (by omega)
      have hupper' := toNat_ofNat_of_le
        (pageSize - HeapPage.totalLen page.linePointers page.tuples) (by omega)
      refine ⟨by simp, normalAll_liveSlots hpage.length_eq hpage.nonempty, ?_,
        hpage.special_eq, ?_, ?_⟩
      · simp only [List.length_map, hlower']
      · simp only [List.length_map, hlower', htotal, hupper']
        omega
      · simp only [htotal, hupper']
        omega

theorem relocate_map_flags (lps : List LinePointer) (tuples : List Bytes) (stop : Nat)
    (hlen : tuples.length = lps.length) :
    (relocate lps tuples stop).map LinePointer.lpFlags = lps.map LinePointer.lpFlags := by
  induction lps generalizing tuples stop with
  | nil => simp [relocate]
  | cons lp lps ih =>
      cases tuples with
      | nil => simp at hlen
      | cons tuple tuples =>
          have hlen' : tuples.length = lps.length := by simpa using hlen
          by_cases hnormal : lp.lpFlags = lpNormal <;> simp [relocate, hnormal, ih _ _ hlen']

theorem restored_length (lps : List LinePointer) (tuples : List Bytes)
    (hlen : tuples.length = lps.length) : (restored lps tuples).length = lps.length := by
  induction lps generalizing tuples with
  | nil => simp [restored]
  | cons lp lps ih =>
      cases tuples with
      | nil => simp at hlen
      | cons tuple tuples => simp [restored, ih tuples (by simpa using hlen)]

theorem restored_getElem? {lps : List LinePointer} {tuples : List Bytes} {slot : Nat}
    {lp : LinePointer} (hlen : tuples.length = lps.length) (hlp : lps[slot]? = some lp)
    (hnormal : lp.lpFlags = lpNormal) : (restored lps tuples)[slot]? = tuples[slot]? := by
  induction lps generalizing tuples slot with
  | nil => simp at hlp
  | cons lp' lps ih =>
      cases tuples with
      | nil => simp at hlen
      | cons tuple tuples =>
          cases slot with
          | zero =>
              have heq : lp' = lp := by simpa using hlp
              simp [restored, heq, hnormal]
          | succ slot =>
              simpa [restored] using ih (by simpa using hlen) (by simpa using hlp)

theorem totalLen_relocate (lps : List LinePointer) (tuples : List Bytes) (stop : Nat)
    (hlen : tuples.length = lps.length) :
    HeapPage.totalLen (relocate lps tuples stop) (restored lps tuples) =
      HeapPage.totalLen lps tuples := by
  induction lps generalizing tuples stop with
  | nil => simp [relocate, HeapPage.totalLen]
  | cons lp lps ih =>
      cases tuples with
      | nil => simp at hlen
      | cons tuple tuples =>
          have hlen' : tuples.length = lps.length := by simpa using hlen
          by_cases hnormal : lp.lpFlags = lpNormal <;>
            simp [relocate, restored, HeapPage.totalLen, hnormal, ih _ _ hlen']

/-- A slot has the same flags before and after the page is stored. -/
theorem relocate_getElem?_flags (lps : List LinePointer) (tuples : List Bytes) (stop slot : Nat)
    (hlen : tuples.length = lps.length) :
    (relocate lps tuples stop)[slot]?.map LinePointer.lpFlags =
      lps[slot]?.map LinePointer.lpFlags := by
  rw [← List.getElem?_map, ← List.getElem?_map, relocate_map_flags lps tuples stop hlen]

theorem normalAll_relocate {P : Bytes → Prop} {lps : List LinePointer} {tuples : List Bytes}
    (hlen : tuples.length = lps.length) (h : NormalAll P lps tuples) (stop : Nat) :
    NormalAll P (relocate lps tuples stop) (restored lps tuples) := by
  intro slot lp tuple hlp htuple hnormal
  have hflags := relocate_getElem?_flags lps tuples stop slot hlen
  rw [hlp] at hflags
  obtain ⟨lp', hlp', heq⟩ := Option.map_eq_some_iff.mp hflags.symm
  rw [restored_getElem? hlen hlp' (heq.trans hnormal)] at htuple
  exact h slot lp' tuple hlp' htuple (heq.trans hnormal)

theorem wellFormed_stored {page : HeapPage} (hpage : WellFormed page) :
    WellFormed (stored page) := by
  have hupper := hpage.upper_le
  have hroom := hpage.lower_le_upper
  have hupper' := toNat_ofNat_of_le
    (pageSize - HeapPage.totalLen page.linePointers page.tuples) (by omega)
  have hlen := relocate_length page.linePointers page.tuples pageSize hpage.length_eq
  refine ⟨?_, normalAll_relocate hpage.length_eq hpage.nonempty pageSize, ?_,
    hpage.special_eq, ?_, ?_⟩
  · simp only [stored]
    rw [restored_length _ _ hpage.length_eq, hlen]
  · simp only [stored, hlen]
    exact hpage.lower_eq
  · simp only [stored, hupper']
    omega
  · simp only [stored, hupper', totalLen_relocate _ _ _ hpage.length_eq]
    omega

theorem stored_getTuple {page : HeapPage} (hpage : WellFormed page) (slot : UInt16) :
    (stored page).getTuple slot = page.getTuple slot := by
  have hflags := relocate_getElem?_flags page.linePointers page.tuples pageSize slot.toNat
    hpage.length_eq
  simp only [HeapPage.getTuple, stored]
  cases hlp : page.linePointers[slot.toNat]? with
  | none =>
      rw [hlp] at hflags
      rw [Option.map_eq_none_iff.mp hflags]
  | some lp =>
      rw [hlp] at hflags
      obtain ⟨lp', hlp', heq⟩ := Option.map_eq_some_iff.mp hflags
      simp only [hlp', heq]
      by_cases hnormal : lp.lpFlags = lpNormal
      · simp [hnormal, restored_getElem? hpage.length_eq hlp hnormal]
      · simp [hnormal]

/-- One mutation of a page by its users.  `replaceTuple` is the in-place write
of a restamped tuple, `reload` a write to storage and a read back. -/
inductive PageStep : HeapPage → HeapPage → Prop
  | addTuple {page page' : HeapPage} {tuple : Bytes} {slot : Option UInt16} :
      tuple ≠ [] → tuple.length ≤ page.header.pdUpper.toNat →
      page.addTuple tuple = some (page', slot) → PageStep page page'
  | hotUpdate {page page' : HeapPage} {old : UInt16} {tuple : Bytes} {slot : Option UInt16} :
      tuple ≠ [] → tuple.length ≤ page.header.pdUpper.toNat →
      page.hotUpdate old tuple = some (page', slot) → PageStep page page'
  | markDead {page : HeapPage} {slot : Nat} :
      slot < page.linePointers.length → PageStep page (page.markDead slot)
  | replaceTuple {page : HeapPage} {slot : Nat} {old tuple : Bytes} :
      page.tuples[slot]? = some old → tuple.length = old.length →
      PageStep page (page.setTuple slot tuple)
  | compact {page page' : HeapPage} : page.compact = some page' → PageStep page page'
  | reload {page page' : HeapPage} {data : Bytes} :
      page.serialize = some data → HeapPage.deserialize data = some page' → PageStep page page'

theorem wellFormed_step {page page' : HeapPage} (hpage : WellFormed page)
    (h : PageStep page page') : WellFormed page' := by
  cases h with
  | addTuple htuple _ hadd => exact wellFormed_addTuple hpage htuple hadd
  | hotUpdate htuple _ hhot => exact wellFormed_hotUpdate hpage htuple hhot
  | markDead _ => exact wellFormed_markDead hpage _
  | replaceTuple hold hlen => exact wellFormed_setTuple hpage hold hlen
  | compact hcompact => exact wellFormed_compact hpage hcompact
  | reload hserialize hdeserialize =>
      rw [serialize_eq_image hpage] at hserialize
      cases hserialize
      rw [deserialize_image hpage] at hdeserialize
      cases hdeserialize
      exact wellFormed_stored hpage

theorem wellFormed_of_reachable {page : HeapPage}
    (h : Relation.ReflTransGen PageStep HeapPage.new page) : WellFormed page := by
  induction h with
  | refl => exact wellFormed_new
  | tail _ hstep ih => exact wellFormed_step ih hstep

/-- Storing and reloading a page that its users built keeps every slot's flags
and tuple. -/
theorem reload_preserves_slots {page : HeapPage}
    (h : Relation.ReflTransGen PageStep HeapPage.new page) :
    ∃ data page', page.serialize = some data ∧ HeapPage.deserialize data = some page' ∧
      page'.linePointers.map LinePointer.lpFlags =
        page.linePointers.map LinePointer.lpFlags ∧
      ∀ slot, page'.getTuple slot = page.getTuple slot := by
  have hpage := wellFormed_of_reachable h
  refine ⟨image page, stored page, serialize_eq_image hpage, deserialize_image hpage, ?_,
    stored_getTuple hpage⟩
  exact relocate_map_flags page.linePointers page.tuples pageSize hpage.length_eq

/-- An empty page after `add_tuple` of two bytes and a `hot_update` of that slot. -/
def hotUpdatedPage : HeapPage where
  header := { PageHeader.new with pdLower := 34, pdUpper := 8188 }
  linePointers := [⟨1, lpRedirect⟩, ⟨8188, lpNormal⟩]
  tuples := [[1, 2], [3, 4]]

theorem hotUpdatedPage_reachable :
    Relation.ReflTransGen PageStep HeapPage.new hotUpdatedPage := by
  let added : HeapPage :=
    { header := { PageHeader.new with pdLower := 30, pdUpper := 8190 }
      linePointers := [⟨8190, lpNormal⟩]
      tuples := [[1, 2]] }
  have hadd : HeapPage.new.addTuple [1, 2] = some (added, some 0) := by decide
  have hhot : added.hotUpdate 0 [3, 4] = some (hotUpdatedPage, some 1) := by decide
  have hfirst : PageStep HeapPage.new added :=
    PageStep.addTuple (by decide) (by decide) hadd
  have hsecond : PageStep added hotUpdatedPage :=
    PageStep.hotUpdate (by decide) (by decide) hhot
  exact (Relation.ReflTransGen.single hfirst).tail hsecond

theorem reload_preserves_slots_hotUpdatedPage :
    Relation.ReflTransGen PageStep HeapPage.new hotUpdatedPage ∧
      ∃ data page', hotUpdatedPage.serialize = some data ∧
        HeapPage.deserialize data = some page' ∧
        page'.linePointers.map LinePointer.lpFlags = [lpRedirect, lpNormal] ∧
        ∀ slot, page'.getTuple slot = hotUpdatedPage.getTuple slot :=
  ⟨hotUpdatedPage_reachable, reload_preserves_slots hotUpdatedPage_reachable⟩

end PostgressRs.Storage.PageRoundTrip
