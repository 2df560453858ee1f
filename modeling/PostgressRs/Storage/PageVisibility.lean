import Mathlib.Data.List.Induction
import Mathlib.Data.Set.Insert
import PostgressRs.Lib.ByteBuffer

/-!
The visibility map (`src/storage/visibility_map.rs`): one bit for each page,
eight to a byte, against the set of pages that are all visible.
-/

namespace PostgressRs.Storage.PageVisibility

open PostgressRs.Lib.ByteBuffer

structure VisibilityMap where
  data : Bytes
  numPages : UInt32

/-- `num_pages.div_ceil(PAGES_PER_BYTE)`. -/
def bytesNeeded (numPages : UInt32) : Nat := (numPages.toNat + 7) / 8

def byteIdx (pageIdx : UInt32) : Nat := pageIdx.toNat / 8

def bitIdx (pageIdx : UInt32) : Nat := pageIdx.toNat % 8

/-- `1 << bit_idx`. -/
def bit (pageIdx : UInt32) : UInt8 := 1 <<< UInt8.ofNat (bitIdx pageIdx)

namespace VisibilityMap

def new (numPages : UInt32) : VisibilityMap := ⟨List.replicate (bytesNeeded numPages) 0, numPages⟩

def isPageAllVisible (self : VisibilityMap) (pageIdx : UInt32) : Option Bool :=
  if self.numPages ≤ pageIdx then some false
  else do
    let byte ← self.data[byteIdx pageIdx]?
    pure (byte &&& bit pageIdx ≠ 0)

/-- `self.data[byte_idx] = f(self.data[byte_idx])` for a page inside the map. -/
def alterByte (self : VisibilityMap) (f : UInt8 → UInt8) (pageIdx : UInt32) :
    Option VisibilityMap :=
  if self.numPages ≤ pageIdx then some self
  else do
    let byte ← self.data[byteIdx pageIdx]?
    pure { self with data := self.data.set (byteIdx pageIdx) (f byte) }

def markAllVisible (self : VisibilityMap) (pageIdx : UInt32) : Option VisibilityMap :=
  self.alterByte (fun byte => byte ||| bit pageIdx) pageIdx

def clearAllVisible (self : VisibilityMap) (pageIdx : UInt32) : Option VisibilityMap :=
  self.alterByte (fun byte => byte &&& ~~~ bit pageIdx) pageIdx

def serialize (self : VisibilityMap) : Bytes := toLeBytes 4 self.numPages.toNat ++ self.data

def deserialize (data : Bytes) : VisibilityMap :=
  if data.length < 4 then new 0
  else ⟨data.drop 4, UInt32.ofNat (fromLeBytes (data.take 4))⟩

end VisibilityMap

/-- What a caller can do with a map. -/
inductive MapStep where
  | mark (pageIdx : UInt32)
  | clear (pageIdx : UInt32)
  | reload
deriving DecidableEq

def MapStep.apply (vm : VisibilityMap) : MapStep → Option VisibilityMap
  | .mark pageIdx => vm.markAllVisible pageIdx
  | .clear pageIdx => vm.clearAllVisible pageIdx
  | .reload => some (VisibilityMap.deserialize vm.serialize)

/-- The step is a mark or a clear of this page. -/
def MapStep.touches (pageIdx : UInt32) (step : MapStep) : Bool :=
  step = .mark pageIdx ∨ step = .clear pageIdx

theorem deserialize_serialize (vm : VisibilityMap) :
    VisibilityMap.deserialize vm.serialize = vm := by
  have hlen : (toLeBytes 4 vm.numPages.toNat).length = 4 := toLeBytes_length _ _
  have htake : vm.serialize.take 4 = toLeBytes 4 vm.numPages.toNat := List.take_left' hlen
  have hdrop : vm.serialize.drop 4 = vm.data := List.drop_left' hlen
  have hlong : ¬ vm.serialize.length < 4 := by
    rw [VisibilityMap.serialize, List.length_append, hlen]
    omega
  rw [VisibilityMap.deserialize, if_neg hlong, htake, hdrop,
    fromLeBytes_toLeBytes _ _ vm.numPages.toNat_lt, UInt32.ofNat_toNat]

section Bits

theorem toBitVec_bit (pageIdx : UInt32) :
    (bit pageIdx).toBitVec = BitVec.twoPow 8 (bitIdx pageIdx) := by
  have hall : ∀ n < 8, ((1 : UInt8) <<< UInt8.ofNat n).toBitVec = BitVec.twoPow 8 n := by decide
  exact hall _ (Nat.mod_lt _ (by decide))

theorem and_bit_ne_zero_iff (byte : UInt8) (pageIdx : UInt32) :
    byte &&& bit pageIdx ≠ 0 ↔ byte.toBitVec.getLsbD (bitIdx pageIdx) = true := by
  have hone : BitVec.twoPow 8 (bitIdx pageIdx) ≠ 0#8 := by
    have hall : ∀ n < 8, BitVec.twoPow 8 n ≠ 0#8 := by decide
    exact hall _ (Nat.mod_lt _ (by decide))
  rw [← UInt8.toBitVec_inj.ne, UInt8.toBitVec_and, toBitVec_bit, BitVec.and_twoPow]
  split
  · exact iff_of_true hone ‹_›
  · exact iff_of_false (fun h => h rfl) ‹_›

theorem getLsbD_mark (byte : UInt8) (pageIdx j : UInt32) :
    (byte ||| bit pageIdx).toBitVec.getLsbD (bitIdx j) =
      (byte.toBitVec.getLsbD (bitIdx j) || decide (bitIdx pageIdx = bitIdx j)) := by
  have hlt : bitIdx pageIdx < 8 := Nat.mod_lt _ (by decide)
  rw [UInt8.toBitVec_or, BitVec.getLsbD_or, toBitVec_bit, BitVec.getLsbD_twoPow,
    decide_eq_true hlt, Bool.true_and]

theorem getLsbD_clear (byte : UInt8) (pageIdx j : UInt32) :
    (byte &&& ~~~ bit pageIdx).toBitVec.getLsbD (bitIdx j) =
      (byte.toBitVec.getLsbD (bitIdx j) && !decide (bitIdx pageIdx = bitIdx j)) := by
  have hlt : bitIdx pageIdx < 8 := Nat.mod_lt _ (by decide)
  have hin : bitIdx j < 8 := Nat.mod_lt _ (by decide)
  rw [UInt8.toBitVec_and, BitVec.getLsbD_and, UInt8.toBitVec_not, BitVec.getLsbD_not,
    toBitVec_bit, BitVec.getLsbD_twoPow, decide_eq_true hlt, decide_eq_true hin, Bool.true_and,
    Bool.true_and]

theorem eq_of_idx_eq {i j : UInt32} (hbyte : byteIdx i = byteIdx j) (hbit : bitIdx i = bitIdx j) :
    i = j := by
  unfold byteIdx at hbyte
  unfold bitIdx at hbit
  apply UInt32.toNat_inj.mp
  omega

end Bits

/-- What a step does to the set of marked pages, whether they are in the map or not. -/
def MapStep.onPages (pages : Set UInt32) : MapStep → Set UInt32
  | .mark pageIdx => insert pageIdx pages
  | .clear pageIdx => pages \ {pageIdx}
  | .reload => pages

/-- There is a byte for every page and no byte more, and the bit of every page
in the map says whether it is in `pages`. -/
structure Represents (vm : VisibilityMap) (numPages : UInt32) (pages : Set UInt32) : Prop where
  numPages_eq : vm.numPages = numPages
  length_eq : vm.data.length = bytesNeeded numPages
  bit_iff : ∀ j < numPages, ∀ byte, vm.data[byteIdx j]? = some byte →
    (byte.toBitVec.getLsbD (bitIdx j) = true ↔ j ∈ pages)

theorem byteIdx_lt {numPages pageIdx : UInt32} (h : pageIdx < numPages) :
    byteIdx pageIdx < bytesNeeded numPages := by
  have hlt := UInt32.lt_iff_toNat_lt.mp h
  unfold byteIdx bytesNeeded
  omega

theorem represents_new (numPages : UInt32) : Represents (.new numPages) numPages ∅ := by
  refine ⟨rfl, List.length_replicate, ?_⟩
  intro j _ byte hbyte
  obtain rfl := List.eq_of_mem_replicate (List.mem_of_getElem? hbyte)
  simp

namespace Represents

variable {vm : VisibilityMap} {numPages : UInt32} {pages : Set UInt32}

theorem byte (h : Represents vm numPages pages) {pageIdx : UInt32} (hlt : pageIdx < numPages) :
    ∃ byte, vm.data[byteIdx pageIdx]? = some byte := by
  have hidx : byteIdx pageIdx < vm.data.length := by
    rw [h.length_eq]
    exact byteIdx_lt hlt
  exact ⟨vm.data[byteIdx pageIdx], List.getElem?_eq_getElem hidx⟩

theorem isPageAllVisible (h : Represents vm numPages pages) (pageIdx : UInt32) :
    ∃ answer, vm.isPageAllVisible pageIdx = some answer ∧
      (answer = true ↔ pageIdx < numPages ∧ pageIdx ∈ pages) := by
  unfold VisibilityMap.isPageAllVisible
  rw [h.numPages_eq]
  by_cases hout : numPages ≤ pageIdx
  · rw [if_pos hout]
    exact ⟨false, rfl, by simp [UInt32.not_lt.mpr hout]⟩
  · have hlt := UInt32.not_le.mp hout
    obtain ⟨byte, hbyte⟩ := h.byte hlt
    rw [if_neg hout, hbyte]
    refine ⟨decide (byte &&& bit pageIdx ≠ 0), rfl, ?_⟩
    rw [decide_eq_true_iff, and_bit_ne_zero_iff, h.bit_iff pageIdx hlt byte hbyte,
      and_iff_right hlt]

/-- A byte is altered in one bit: every other page keeps its own. -/
theorem alterByte (h : Represents vm numPages pages) {f : UInt8 → UInt8} {pageIdx : UInt32}
    {pages' : Set UInt32} (hother : ∀ j, j ≠ pageIdx → (j ∈ pages' ↔ j ∈ pages))
    (hself : ∀ byte, (f byte).toBitVec.getLsbD (bitIdx pageIdx) = true ↔ pageIdx ∈ pages')
    (hkeep : ∀ byte j, bitIdx pageIdx ≠ bitIdx j →
      (f byte).toBitVec.getLsbD (bitIdx j) = byte.toBitVec.getLsbD (bitIdx j)) :
    ∃ vm', vm.alterByte f pageIdx = some vm' ∧ Represents vm' numPages pages' := by
  unfold VisibilityMap.alterByte
  rw [h.numPages_eq]
  by_cases hout : numPages ≤ pageIdx
  · rw [if_pos hout]
    refine ⟨vm, rfl, h.numPages_eq, h.length_eq, ?_⟩
    intro j hj byte hbyte
    have hne : j ≠ pageIdx := by
      rintro rfl
      exact absurd hj (UInt32.not_lt.mpr hout)
    rw [h.bit_iff j hj byte hbyte, hother j hne]
  · have hlt := UInt32.not_le.mp hout
    obtain ⟨old, hold⟩ := h.byte hlt
    rw [if_neg hout, hold]
    refine ⟨⟨vm.data.set (byteIdx pageIdx) (f old), numPages⟩, rfl, rfl, ?_, ?_⟩
    · rw [List.length_set, h.length_eq]
    · intro j hj byte hbyte
      by_cases hsame : byteIdx pageIdx = byteIdx j
      · have hidx := (List.getElem?_eq_some_iff.mp hold).1
        rw [← hsame, List.getElem?_set_self hidx, Option.some.injEq] at hbyte
        subst byte
        by_cases hbit : bitIdx pageIdx = bitIdx j
        · obtain rfl := eq_of_idx_eq hsame hbit
          exact hself old
        · have hne : j ≠ pageIdx := by
            rintro rfl
            exact hbit rfl
          rw [hkeep old j hbit, h.bit_iff j hj old (hsame ▸ hold), hother j hne]
      · rw [List.getElem?_set_ne hsame] at hbyte
        have hne : j ≠ pageIdx := by
          rintro rfl
          exact hsame rfl
        rw [h.bit_iff j hj byte hbyte, hother j hne]

theorem apply (h : Represents vm numPages pages) (step : MapStep) :
    ∃ vm', step.apply vm = some vm' ∧ Represents vm' numPages (step.onPages pages) := by
  cases step with
  | mark pageIdx =>
      refine h.alterByte ?_ ?_ ?_
      · intro j hne
        simp [MapStep.onPages, hne]
      · intro byte
        simp only [getLsbD_mark, decide_true, Bool.or_true, MapStep.onPages, Set.mem_insert_iff,
          true_or]
      · intro byte j hbit
        simp only [getLsbD_mark, hbit, decide_false, Bool.or_false]
  | clear pageIdx =>
      refine h.alterByte ?_ ?_ ?_
      · intro j hne
        simp [MapStep.onPages, hne]
      · intro byte
        simp only [getLsbD_clear, decide_true, Bool.not_true, Bool.and_false, Bool.false_eq_true,
          MapStep.onPages, Set.mem_sdiff, Set.mem_singleton_iff, not_true_eq_false, and_false]
      · intro byte j hbit
        simp only [getLsbD_clear, hbit, decide_false, Bool.not_false, Bool.and_true]
  | reload =>
      refine ⟨vm, ?_, h⟩
      rw [MapStep.apply, deserialize_serialize]

theorem foldlM_apply (h : Represents vm numPages pages) (steps : List MapStep) :
    ∃ vm', steps.foldlM MapStep.apply vm = some vm' ∧
      Represents vm' numPages (steps.foldl MapStep.onPages pages) := by
  induction steps generalizing vm pages with
  | nil => exact ⟨vm, rfl, h⟩
  | cons step steps ih =>
      obtain ⟨vm', hstep, h'⟩ := h.apply step
      obtain ⟨vm'', hsteps, h''⟩ := ih h'
      refine ⟨vm'', ?_, h''⟩
      rw [List.foldlM_cons, hstep, Option.bind_eq_bind, Option.bind_some, hsteps]

end Represents

/-- A page is marked at the end if the last step that touched it marked it. -/
theorem mem_foldl_onPages (pageIdx : UInt32) (steps : List MapStep) :
    pageIdx ∈ steps.foldl MapStep.onPages ∅ ↔
      (steps.filter (MapStep.touches pageIdx)).getLast? = some (.mark pageIdx) := by
  induction steps using List.reverseRecOn with
  | nil => simp
  | append_singleton steps step ih =>
      rw [List.foldl_append, List.foldl_cons, List.foldl_nil, List.filter_append]
      by_cases htouch : step.touches pageIdx = true
      · rw [List.filter_cons_of_pos htouch, List.filter_nil, List.getLast?_concat]
        rcases of_decide_eq_true htouch with rfl | rfl
        · simp [MapStep.onPages]
        · simp [MapStep.onPages]
      · rw [List.filter_cons_of_neg htouch, List.filter_nil, List.append_nil, ← ih]
        cases step with
        | mark j =>
            have hne : pageIdx ≠ j := by
              rintro rfl
              exact htouch (decide_eq_true (.inl rfl))
            simp [MapStep.onPages, hne]
        | clear j =>
            have hne : pageIdx ≠ j := by
              rintro rfl
              exact htouch (decide_eq_true (.inr rfl))
            simp [MapStep.onPages, hne]
        | reload => rfl

/-- No sequence of steps panics, and afterwards a page is all visible exactly if
it is in the map and the last mark or clear of it was a mark. -/
theorem isPageAllVisible_iff_last_mark (numPages : UInt32) (steps : List MapStep) :
    ∃ vm, steps.foldlM MapStep.apply (.new numPages) = some vm ∧
      ∀ pageIdx, vm.isPageAllVisible pageIdx =
        some (decide (pageIdx < numPages ∧
          (steps.filter (MapStep.touches pageIdx)).getLast? = some (.mark pageIdx))) := by
  obtain ⟨vm, hrun, hvm⟩ := (represents_new numPages).foldlM_apply steps
  refine ⟨vm, hrun, ?_⟩
  intro pageIdx
  obtain ⟨answer, hanswer, hiff⟩ := hvm.isPageAllVisible pageIdx
  rw [mem_foldl_onPages] at hiff
  rw [hanswer, Option.some.injEq, Bool.eq_iff_iff, hiff, decide_eq_true_iff]

end PostgressRs.Storage.PageVisibility
