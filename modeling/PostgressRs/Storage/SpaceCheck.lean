import PostgressRs.Storage.SlottedPage

/-!
When the space check of a page is exact and leaves a page it has no room on as it was.
-/

namespace PostgressRs.Storage.SpaceCheck

open PostgressRs.Lib.ByteBuffer
open PostgressRs.Storage.SlottedPage

section Checks

/-- The slot of a new tuple: the first dead one, or one behind the last. -/
def slotFor (page : HeapPage) : Nat :=
  (page.linePointers.findIdx? fun lp => lp.lpFlags = lpDead).getD page.linePointers.length

/-- What a new tuple needs for its line pointer. -/
def pointerSpace (page : HeapPage) : Nat :=
  if (page.linePointers.findIdx? fun lp => lp.lpFlags = lpDead).isSome then 0 else linePointerSize

/-- The tuple and a line pointer of the given size fit between the line pointers and the
tuples. -/
def Fits (page : HeapPage) (tupleData : Bytes) (pointerSize : Nat) : Prop :=
  tupleData.length + pointerSize ≤ page.header.pdUpper.toNat - page.header.pdLower.toNat

/-- The call returns without overflow, with the slot exactly if the tuple fits, and with
the page as it was if not. -/
def ChecksSpace (page : HeapPage) (tupleData : Bytes) (pointerSize slot : Nat)
    (result : Option (HeapPage × Option UInt16)) : Prop :=
  ∃ page' used, result = some (page', used) ∧
    (used.isSome = true ↔ Fits page tupleData pointerSize) ∧
    (used = none → page' = page) ∧ ∀ idx, used = some idx → idx.toNat = slot

/-- The tuple is not longer than `pd_upper`, and its slot has a number of 16 bits. -/
def InRange (page : HeapPage) (tupleData : Bytes) (pointerSize slot : Nat) : Prop :=
  tupleData.length ≤ page.header.pdUpper.toNat ∧
    (Fits page tupleData pointerSize → slot < 2 ^ 16)

variable {page : HeapPage} {tupleData : Bytes} {pointerSize slot : Nat}

theorem toNat_ofNat_iff (n : Nat) : (UInt16.ofNat n).toNat = n ↔ n < 2 ^ 16 := by
  rw [UInt16.toNat_ofNat']
  exact Nat.mod_eq_iff_lt (by decide)

theorem checksSpace_none : ¬ChecksSpace page tupleData pointerSize slot none := by
  rintro ⟨page', used, hresult, -⟩
  cases hresult

theorem checksSpace_full (hfits : ¬Fits page tupleData pointerSize) :
    ChecksSpace page tupleData pointerSize slot (some (page, none)) :=
  ⟨page, none, rfl, iff_of_false Bool.false_ne_true hfits, fun _ => rfl, nofun⟩

theorem checksSpace_room {page' : HeapPage} (hfits : Fits page tupleData pointerSize) :
    ChecksSpace page tupleData pointerSize slot (some (page', some (UInt16.ofNat slot))) ↔
      slot < 2 ^ 16 := by
  constructor
  · rintro ⟨page'', used, hresult, -, -, hslot⟩
    cases hresult
    exact (toNat_ofNat_iff slot).mp (hslot _ rfl)
  · intro hslot
    refine ⟨page', _, rfl, iff_of_true rfl hfits, nofun, ?_⟩
    intro idx hidx
    cases hidx
    exact (toNat_ofNat_iff slot).mpr hslot

/-- A call that takes the slot exactly where the tuple fits. -/
theorem checksSpace_ite_iff {page' : HeapPage} {full : Prop} [Decidable full]
    (hfull : Fits page tupleData pointerSize ↔ ¬full) :
    ChecksSpace page tupleData pointerSize slot
        (if full then some (page, none) else some (page', some (UInt16.ofNat slot))) ↔
      (Fits page tupleData pointerSize → slot < 2 ^ 16) := by
  split
  · rename_i h
    have hno : ¬Fits page tupleData pointerSize := fun hfits => hfull.mp hfits h
    exact iff_of_true (checksSpace_full hno) fun hfits => absurd hfits hno
  · rename_i h
    have hyes := hfull.mpr h
    exact (checksSpace_room hyes).trans ⟨fun hslot _ => hslot, fun hslot => hslot hyes⟩

/-- The comparison of the code, for a tuple that does not make `pd_upper` negative. -/
theorem fits_iff (hlower : page.header.pdLower.toNat ≤ page.header.pdUpper.toNat)
    (hle : tupleData.length ≤ page.header.pdUpper.toNat) :
    Fits page tupleData pointerSize ↔
      ¬page.header.pdUpper.toNat - tupleData.length < page.header.pdLower.toNat + pointerSize := by
  unfold Fits
  omega

theorem addTuple_checksSpace_iff (tupleData : Bytes)
    (hlower : page.header.pdLower.toNat ≤ page.header.pdUpper.toNat) :
    ChecksSpace page tupleData (pointerSpace page) (slotFor page) (page.addTuple tupleData) ↔
      InRange page tupleData (pointerSpace page) (slotFor page) := by
  unfold HeapPage.addTuple InRange
  cases hsub : checkedSub page.header.pdUpper.toNat tupleData.length with
  | none =>
      have hlt := checkedSub_eq_none.mp hsub
      simp only [Option.bind_eq_bind, Option.bind_none]
      exact iff_of_false checksSpace_none fun h => Nat.not_le.mpr hlt h.1
  | some newUpper =>
      obtain ⟨hle, rfl⟩ := checkedSub_eq_some.mp hsub
      have hfits := @fits_iff page tupleData (pointerSpace page) hlower hle
      simp only [Option.bind_eq_bind, Option.bind_some, and_iff_right hle]
      cases hfind : page.linePointers.findIdx? fun lp => lp.lpFlags = lpDead with
      | none =>
          have hspace : pointerSpace page = linePointerSize := by
            rw [pointerSpace, hfind]
            rfl
          have hslot : slotFor page = page.linePointers.length := by rw [slotFor, hfind]; rfl
          rw [hspace] at hfits ⊢
          simp only [Option.map_none, Option.isNone_none, if_true]
          rw [hslot]
          exact checksSpace_ite_iff hfits
      | some i =>
          have hspace : pointerSpace page = 0 := by
            rw [pointerSpace, hfind]
            rfl
          have hslot : slotFor page = i := by rw [slotFor, hfind]; rfl
          rw [hspace] at hfits ⊢
          rw [Nat.add_zero] at hfits
          simp only [Option.map_some, Option.isNone_some, Bool.false_eq_true, if_false]
          rw [hslot]
          exact checksSpace_ite_iff hfits

theorem hotUpdate_checksSpace_iff (tupleData : Bytes) {oldSlot : UInt16} {old : LinePointer}
    (hold : page.linePointers[oldSlot.toNat]? = some old) (hnormal : old.lpFlags = lpNormal)
    (hlower : page.header.pdLower.toNat ≤ page.header.pdUpper.toNat) :
    ChecksSpace page tupleData linePointerSize page.linePointers.length
        (page.hotUpdate oldSlot tupleData) ↔
      InRange page tupleData linePointerSize page.linePointers.length := by
  unfold HeapPage.hotUpdate InRange
  rw [hold]
  simp only [hnormal, ne_eq, not_true_eq_false, if_false]
  cases hsub : checkedSub page.header.pdUpper.toNat tupleData.length with
  | none =>
      have hlt := checkedSub_eq_none.mp hsub
      simp only [Option.bind_eq_bind, Option.bind_none]
      exact iff_of_false checksSpace_none fun h => Nat.not_le.mpr hlt h.1
  | some newUpper =>
      obtain ⟨hle, rfl⟩ := checkedSub_eq_some.mp hsub
      have hfits := @fits_iff page tupleData linePointerSize hlower hle
      simp only [Option.bind_eq_bind, Option.bind_some, and_iff_right hle]
      exact checksSpace_ite_iff hfits

end Checks

/-- Both checks are exact and clean as long as the tuple is not longer than `pd_upper`
and the number of the slot fits. -/
theorem space_checks_iff (page : HeapPage) (tupleData : Bytes)
    (hlower : page.header.pdLower.toNat ≤ page.header.pdUpper.toNat) :
    (ChecksSpace page tupleData (pointerSpace page) (slotFor page) (page.addTuple tupleData) ↔
      InRange page tupleData (pointerSpace page) (slotFor page)) ∧
    ∀ (oldSlot : UInt16) (old : LinePointer), page.linePointers[oldSlot.toNat]? = some old →
      old.lpFlags = lpNormal →
        (ChecksSpace page tupleData linePointerSize page.linePointers.length
            (page.hotUpdate oldSlot tupleData) ↔
          InRange page tupleData linePointerSize page.linePointers.length) :=
  ⟨addTuple_checksSpace_iff tupleData hlower,
    fun _ _ hold hnormal => hotUpdate_checksSpace_iff tupleData hold hnormal hlower⟩

/-- A byte on an empty page. -/
theorem space_checks_byte :
    ChecksSpace HeapPage.new [0] (pointerSpace HeapPage.new) (slotFor HeapPage.new)
      (HeapPage.new.addTuple [0]) := by
  refine (space_checks_iff HeapPage.new [0] (by decide)).1.mpr ⟨by decide, ?_⟩
  intro _
  decide

/-- A tuple that is longer than a page makes the subtraction overflow. -/
theorem addTuple_overflows :
    HeapPage.new.addTuple (List.replicate 8193 0) = none ∧
      ¬ChecksSpace HeapPage.new (List.replicate 8193 0) (pointerSpace HeapPage.new)
        (slotFor HeapPage.new) (HeapPage.new.addTuple (List.replicate 8193 0)) := by
  have hsub : checkedSub HeapPage.new.header.pdUpper.toNat
      (List.replicate 8193 (0 : UInt8)).length = none := by
    rw [List.length_replicate]
    decide
  have hnone : HeapPage.new.addTuple (List.replicate 8193 0) = none := by
    simp only [HeapPage.addTuple, hsub, Option.bind_eq_bind, Option.bind_none]
  rw [hnone]
  exact ⟨rfl, checksSpace_none⟩

end PostgressRs.Storage.SpaceCheck
