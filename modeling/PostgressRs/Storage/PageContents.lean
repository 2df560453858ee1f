import Mathlib.Algebra.Order.Group.Multiset
import Mathlib.Data.List.Forall2
import PostgressRs.Storage.PageRoundTrip

/-!
Well-formed pages whose normal slots hold tuples of one kind, and what the
mutations of a page do to its single slots.
-/

namespace PostgressRs.Storage.PageContents

open PostgressRs.Lib.ByteBuffer
open PostgressRs.Storage.PageRoundTrip
open PostgressRs.Storage.SlottedPage

/-- A well-formed page whose normal slots hold tuples that satisfy `P`. -/
structure Holds (P : Bytes → Prop) (page : HeapPage) : Prop where
  wellFormed : WellFormed page
  normal : NormalAll P page.linePointers page.tuples

/-- Some line pointers were marked dead. -/
def Retired : List LinePointer → List LinePointer → Prop :=
  List.Forall₂ fun lp lp' => lp' = lp ∨ lp'.lpFlags = lpDead

theorem totalLen_retired_le {lps lps' : List LinePointer} (h : Retired lps lps')
    (tuples : List Bytes) : HeapPage.totalLen lps' tuples ≤ HeapPage.totalLen lps tuples := by
  induction h generalizing tuples with
  | nil => exact Nat.le_refl _
  | @cons lp lp' lps lps' hlp _ ih =>
      cases tuples with
      | nil => exact Nat.le_refl _
      | cons tuple tuples =>
          have htail := ih tuples
          rcases hlp with rfl | hdead
          · simp only [HeapPage.totalLen]
            omega
          · simp only [HeapPage.totalLen, hdead, lpDead_ne_lpNormal, if_false]
            omega

theorem normalAll_retired {P : Bytes → Prop} {lps lps' : List LinePointer} {tuples : List Bytes}
    (hretired : Retired lps lps') (h : NormalAll P lps tuples) : NormalAll P lps' tuples := by
  intro slot lp' tuple hlp' htuple hnormal
  have hlt : slot < lps'.length := (List.getElem?_eq_some_iff.mp hlp').1
  have hlt' : slot < lps.length := by rw [hretired.length_eq]; exact hlt
  have hslot := List.Forall₂.get hretired hlt' hlt
  obtain ⟨_, hget⟩ := List.getElem?_eq_some_iff.mp hlp'
  simp only [List.get_eq_getElem, hget] at hslot
  rcases hslot with hsame | hdead
  · have hlp : lps[slot]? = some lp' := by rw [List.getElem?_eq_getElem hlt', hsame]
    exact h slot lp' tuple hlp htuple hnormal
  · rw [hdead] at hnormal
    exact absurd hnormal lpDead_ne_lpNormal

section Mutations

variable {P : Bytes → Prop} {page page' : HeapPage} {tuple : Bytes} {slot : Option UInt16}

theorem holds_new (P : Bytes → Prop) : Holds P HeapPage.new :=
  ⟨wellFormed_new, by simp [NormalAll, HeapPage.new]⟩

theorem holds_addTuple (hpage : Holds P page) (hne : tuple ≠ []) (htuple : P tuple)
    (h : page.addTuple tuple = some (page', slot)) : Holds P page' := by
  refine ⟨wellFormed_addTuple hpage.wellFormed hne h, ?_⟩
  obtain ⟨-, ⟨rfl, -, -⟩ | ⟨i, -, -, -, rfl⟩ | ⟨-, -, -, rfl⟩⟩ := addTuple_cases h
  · exact hpage.normal
  · exact normalAll_set _ _ _ hpage.normal htuple
  · exact normalAll_append _ _ hpage.wellFormed.length_eq hpage.normal htuple

theorem holds_hotUpdate {old : UInt16} (hpage : Holds P page) (hne : tuple ≠ [])
    (htuple : P tuple) (h : page.hotUpdate old tuple = some (page', slot)) : Holds P page' := by
  refine ⟨wellFormed_hotUpdate hpage.wellFormed hne h, ?_⟩
  obtain ⟨rfl, -⟩ | ⟨lp, -, -, -, -, -, rfl⟩ := hotUpdate_cases h
  · exact hpage.normal
  · have hadded := normalAll_append (LinePointer.new (UInt16.ofNat
      (page.header.pdUpper.toNat - tuple.length))) tuple hpage.wellFormed.length_eq
      hpage.normal htuple
    exact normalAll_set_retired _ _ lpRedirect_ne_lpNormal hadded

theorem holds_setTuple {i : Nat} {old : Bytes} (hpage : Holds P page)
    (hold : page.tuples[i]? = some old) (hlen : tuple.length = old.length) (htuple : P tuple) :
    Holds P (page.setTuple i tuple) :=
  ⟨wellFormed_setTuple hpage.wellFormed hold hlen,
    normalAll_set_tuple hpage.normal fun _ _ _ => htuple⟩

theorem holds_retired {lps : List LinePointer} (hpage : Holds P page)
    (h : Retired page.linePointers lps) : Holds P { page with linePointers := lps } := by
  have hwf := hpage.wellFormed
  have hupper := hwf.upper_le
  have htotal := totalLen_retired_le h page.tuples
  refine ⟨⟨?_, normalAll_retired h hwf.nonempty, ?_, hwf.special_eq, hwf.lower_le_upper, ?_⟩,
    normalAll_retired h hpage.normal⟩
  · exact hwf.length_eq.trans h.length_eq
  · rw [hwf.lower_eq, h.length_eq]
  · simp only
    omega

theorem holds_compact (hpage : Holds P page) (h : page.compact = some page') : Holds P page' := by
  refine ⟨wellFormed_compact hpage.wellFormed h, ?_⟩
  obtain ⟨_, _, hcompact⟩ := Option.bind_eq_some_iff.mp h
  cases hcompact
  exact normalAll_liveSlots hpage.wellFormed.length_eq hpage.normal

theorem holds_stored (hpage : Holds P page) : Holds P (stored page) :=
  ⟨wellFormed_stored hpage.wellFormed,
    normalAll_relocate hpage.wellFormed.length_eq hpage.normal pageSize⟩

end Mutations

theorem linePointers_lt {page : HeapPage} (h : WellFormed page) :
    page.linePointers.length < 2 ^ 16 := by
  have hlower := h.lower_eq
  have hroom := h.lower_le_upper
  have hupper := h.upper_le
  simp only [pageHeaderSize, linePointerSize, pageSize] at hlower hupper
  omega

theorem hotUpdate_getElem? {page page' : HeapPage} {slot : Nat} {bytes : Bytes} {old : UInt16}
    {used : Option UInt16}
    (h : page.hotUpdate old bytes = some (page', used)) (hlt : slot < page.tuples.length) :
    page'.tuples[slot]? = page.tuples[slot]? := by
  obtain ⟨rfl, -⟩ | ⟨lp, -, -, -, -, -, rfl⟩ := hotUpdate_cases h
  · rfl
  · exact List.getElem?_append_left hlt

section Restored

theorem restored_relocate (lps : List LinePointer) (tuples : List Bytes) (stop : Nat) :
    restored (relocate lps tuples stop) (restored lps tuples) = restored lps tuples := by
  induction lps generalizing tuples stop with
  | nil => simp [relocate, restored]
  | cons lp lps ih =>
      cases tuples with
      | nil => simp [relocate, restored]
      | cons tuple tuples =>
          by_cases hnormal : lp.lpFlags = lpNormal
          · simp [relocate, restored, hnormal, ih]
          · simp [relocate, restored, hnormal, ih]

/-- Storing a page a second time changes none of its tuples. -/
theorem stored_stored_tuples (page : HeapPage) :
    (stored (stored page)).tuples = (stored page).tuples :=
  restored_relocate page.linePointers page.tuples pageSize

/-- A tuple that came back from storage belongs to a normal slot or is empty. -/
theorem normal_of_restored {lps : List LinePointer} {tuples : List Bytes} {slot : Nat}
    {tuple : Bytes} (h : (restored lps tuples)[slot]? = some tuple) (hne : tuple ≠ []) :
    ∃ lp, lps[slot]? = some lp ∧ lp.lpFlags = lpNormal ∧ tuples[slot]? = some tuple := by
  induction lps generalizing tuples slot with
  | nil => simp [restored] at h
  | cons lp lps ih =>
      cases tuples with
      | nil => simp [restored] at h
      | cons tuple' tuples =>
          cases slot with
          | zero =>
              by_cases hnormal : lp.lpFlags = lpNormal
              · simp only [restored, hnormal, if_true, List.getElem?_cons_zero] at h
                exact ⟨lp, rfl, hnormal, h⟩
              · simp only [restored, hnormal, if_false, List.getElem?_cons_zero] at h
                cases h
                exact absurd rfl hne
          | succ slot =>
              rw [restored, List.getElem?_cons_succ] at h
              exact ih h

end Restored

section NormalTuples

variable {lps : List LinePointer} {tuples : List Bytes}

/-- The tuples of a page's normal slots. -/
def contents (page : HeapPage) : List Bytes := normalTuples page.linePointers page.tuples

theorem normalTuples_relocate (lps : List LinePointer) (tuples : List Bytes) (stop : Nat) :
    normalTuples (relocate lps tuples stop) (restored lps tuples) = normalTuples lps tuples := by
  induction lps generalizing tuples stop with
  | nil => rfl
  | cons lp lps ih =>
      cases tuples with
      | nil => rfl
      | cons tuple tuples =>
          by_cases hnormal : lp.lpFlags = lpNormal
          · simp [relocate, restored, normalTuples, hnormal, ih]
          · simp [relocate, restored, normalTuples, hnormal, ih]

@[simp] theorem contents_stored (page : HeapPage) : contents (stored page) = contents page :=
  normalTuples_relocate _ _ _

/-- Compaction moves the tuples and loses none. -/
theorem normalTuples_liveSlots (hlen : tuples.length = lps.length) :
    normalTuples ((HeapPage.liveSlots lps tuples).map Prod.fst)
      ((HeapPage.liveSlots lps tuples).map Prod.snd) = normalTuples lps tuples := by
  induction lps generalizing tuples with
  | nil => rfl
  | cons lp lps ih =>
      cases tuples with
      | nil => cases hlen
      | cons tuple tuples =>
          have htail := ih (Nat.succ.inj hlen)
          by_cases hdead : lp.lpFlags = lpDead
          · simp [HeapPage.liveSlots, normalTuples, hdead, lpDead_ne_lpNormal, htail]
          · simp [HeapPage.liveSlots, normalTuples, hdead, htail]

theorem compact_ok {page : HeapPage} (h : WellFormed page) :
    ∃ page', page.compact = some page' ∧ WellFormed page' ∧ contents page' = contents page := by
  have htotal := totalLen_liveSlots page.linePointers page.tuples h.length_eq
  have hupper := h.upper_le
  have hsub : checkedSub pageSize (HeapPage.totalLen
      ((HeapPage.liveSlots page.linePointers page.tuples).map Prod.fst)
      ((HeapPage.liveSlots page.linePointers page.tuples).map Prod.snd)) =
        some (pageSize - HeapPage.totalLen page.linePointers page.tuples) := by
    rw [htotal, checkedSub, if_pos (by omega)]
  obtain ⟨page', hcompact⟩ : ∃ page', page.compact = some page' := by
    simp only [HeapPage.compact, hsub, Option.bind_eq_bind, Option.bind_some]
    exact ⟨_, rfl⟩
  refine ⟨page', hcompact, wellFormed_compact h hcompact, ?_⟩
  simp only [HeapPage.compact, hsub, Option.bind_eq_bind, Option.bind_some] at hcompact
  cases hcompact
  exact normalTuples_liveSlots h.length_eq

theorem normalTuples_length (hlen : tuples.length = lps.length) :
    (normalTuples lps tuples).length =
      (lps.filter fun lp => lp.lpFlags = lpNormal).length := by
  induction lps generalizing tuples with
  | nil => rfl
  | cons lp lps ih =>
      cases tuples with
      | nil => cases hlen
      | cons tuple tuples =>
          have htail := ih (Nat.succ.inj hlen)
          by_cases hnormal : lp.lpFlags = lpNormal
          · simp [normalTuples, hnormal, htail]
          · simp [normalTuples, hnormal, htail]

/-- What a function that skips empty tuples makes of a stored page depends on its
contents only. -/
theorem filterMap_restored {α : Type} (f : Bytes → Option α) (hnil : f [] = none)
    (lps : List LinePointer) (tuples : List Bytes) :
    (restored lps tuples).filterMap f = (normalTuples lps tuples).filterMap f := by
  induction lps generalizing tuples with
  | nil => rfl
  | cons lp lps ih =>
      cases tuples with
      | nil => rfl
      | cons tuple tuples =>
          by_cases hnormal : lp.lpFlags = lpNormal
          · simp [restored, normalTuples, hnormal, List.filterMap_cons, ih]
          · simp [restored, normalTuples, hnormal, ih, hnil]

end NormalTuples

section Exchange

variable {lps : List LinePointer} {tuples : List Bytes}

/-- What a slot adds to the contents of its page. -/
def slotContents (lp : LinePointer) (tuple : Bytes) : Multiset Bytes :=
  if lp.lpFlags = lpNormal then {tuple} else 0

theorem coe_normalTuples_cons (lp : LinePointer) (lps : List LinePointer) (tuple : Bytes)
    (tuples : List Bytes) :
    (normalTuples (lp :: lps) (tuple :: tuples) : Multiset Bytes) =
      slotContents lp tuple + (normalTuples lps tuples : Multiset Bytes) := by
  by_cases hnormal : lp.lpFlags = lpNormal
  · simp [normalTuples, slotContents, hnormal]
  · simp [normalTuples, slotContents, hnormal]

/-- Overwriting a slot exchanges what it adds. -/
theorem normalTuples_set {i : Nat} {lp : LinePointer} {tuple : Bytes}
    (hlp : lps[i]? = some lp) (htuple : tuples[i]? = some tuple) (lp' : LinePointer)
    (tuple' : Bytes) :
    (normalTuples (lps.set i lp') (tuples.set i tuple') : Multiset Bytes) +
        slotContents lp tuple =
      (normalTuples lps tuples : Multiset Bytes) + slotContents lp' tuple' := by
  induction lps generalizing tuples i with
  | nil => simp at hlp
  | cons head lps ih =>
      cases tuples with
      | nil => simp at htuple
      | cons headTuple tuples =>
          cases i with
          | zero =>
              simp only [List.getElem?_cons_zero, Option.some.injEq] at hlp htuple
              subst hlp
              subst htuple
              simp only [List.set_cons_zero, coe_normalTuples_cons]
              rw [add_right_comm, add_comm (slotContents lp' tuple'), add_right_comm]
          | succ i =>
              simp only [List.set_cons_succ, coe_normalTuples_cons, add_assoc]
              rw [ih hlp htuple]

variable {page page' : HeapPage} {i : Nat} {lp : LinePointer} {old tuple : Bytes}

theorem contents_setTuple (hlp : page.linePointers[i]? = some lp)
    (hold : page.tuples[i]? = some old)
    (tuple : Bytes) :
    (contents (page.setTuple i tuple) : Multiset Bytes) + slotContents lp old =
      (contents page : Multiset Bytes) + slotContents lp tuple := by
  have hsame : page.linePointers.set i lp = page.linePointers := by
    obtain ⟨hlt, rfl⟩ := List.getElem?_eq_some_iff.mp hlp
    exact List.set_getElem_self hlt
  have hset := normalTuples_set hlp hold lp tuple
  rwa [hsame] at hset

end Exchange

section Growth

/-- `l'` is `l` with `a` put in. -/
def Grows {α : Type} (a : α) (l l' : List α) : Prop :=
  ∃ front back, l = front ++ back ∧ l' = front ++ a :: back

variable {α β : Type} {a : α} {l l' : List α}

theorem grows_concat (a : α) (l : List α) : Grows a l (l ++ [a]) :=
  ⟨l, [], (List.append_nil l).symm, rfl⟩

theorem Grows.append_left (h : Grows a l l') (front : List α) :
    Grows a (front ++ l) (front ++ l') := by
  obtain ⟨front', back, rfl, rfl⟩ := h
  exact ⟨front ++ front', back, (List.append_assoc _ _ _).symm, (List.append_assoc _ _ _).symm⟩

theorem Grows.filterMap {f : α → Option β} {b : β} (h : Grows a l l') (hb : f a = some b) :
    Grows b (l.filterMap f) (l'.filterMap f) := by
  obtain ⟨front, back, rfl, rfl⟩ := h
  refine ⟨front.filterMap f, back.filterMap f, List.filterMap_append, ?_⟩
  rw [List.filterMap_append, List.filterMap_cons_some hb]

theorem Grows.filter {q : α → Bool} (h : Grows a l l') (ha : q a = false) :
    l'.filter q = l.filter q := by
  obtain ⟨front, back, rfl, rfl⟩ := h
  rw [List.filter_append, List.filter_cons_of_neg (by rw [ha]; exact Bool.false_ne_true),
    List.filter_append]

theorem Grows.coe_eq (h : Grows a l l') : (l' : Multiset α) = (l : Multiset α) + {a} := by
  obtain ⟨front, back, rfl, rfl⟩ := h
  rw [← Multiset.coe_add, ← Multiset.coe_add, ← Multiset.cons_coe, Multiset.add_cons,
    ← Multiset.singleton_add, add_comm]

variable {lps : List LinePointer} {tuples : List Bytes} {i : Nat} {lp lp' : LinePointer}
  {page page' : HeapPage} {old tuple : Bytes} {slot : UInt16}

theorem normalTuples_fill (hlp : lps[i]? = some lp) (hold : tuples[i]? = some old)
    (hunused : lp.lpFlags ≠ lpNormal) (hnormal : lp'.lpFlags = lpNormal) (tuple : Bytes) :
    Grows tuple (normalTuples lps tuples) (normalTuples (lps.set i lp') (tuples.set i tuple)) := by
  induction lps generalizing tuples i with
  | nil => simp at hlp
  | cons head lps ih =>
      cases tuples with
      | nil => simp at hold
      | cons headTuple tuples =>
          cases i with
          | zero =>
              simp only [List.getElem?_cons_zero, Option.some.injEq] at hlp
              subst hlp
              refine ⟨[], normalTuples lps tuples, ?_, ?_⟩
              · simp [normalTuples, hunused]
              · simp [normalTuples, hnormal]
          | succ i =>
              have htail := ih hlp hold
              simp only [List.set_cons_succ, normalTuples]
              split
              · exact htail.append_left [headTuple]
              · exact htail

theorem normalTuples_concat (hlen : tuples.length = lps.length) (hnormal : lp.lpFlags = lpNormal)
    (tuple : Bytes) :
    normalTuples (lps ++ [lp]) (tuples ++ [tuple]) = normalTuples lps tuples ++ [tuple] := by
  induction lps generalizing tuples with
  | nil =>
      rw [List.length_eq_zero_iff.mp hlen]
      simp [normalTuples, hnormal]
  | cons head lps ih =>
      cases tuples with
      | nil => cases hlen
      | cons headTuple tuples =>
          have htail := ih (Nat.succ.inj hlen)
          by_cases hhead : head.lpFlags = lpNormal
          · simp [normalTuples, hhead, htail]
          · simp [normalTuples, hhead, htail]

theorem contents_addTuple (hpage : WellFormed page)
    (h : page.addTuple tuple = some (page', some slot)) :
    Grows tuple (contents page) (contents page') := by
  obtain ⟨-, ⟨-, hnone, -⟩ | ⟨i, hfind, -, -, rfl⟩ | ⟨-, -, -, rfl⟩⟩ := addTuple_cases h
  · cases hnone
  · obtain ⟨hi, hdead, _⟩ := List.findIdx?_eq_some_iff_getElem.mp hfind
    simp only [decide_eq_true_eq] at hdead
    have hlt : i < page.tuples.length := by
      rw [hpage.length_eq]
      exact hi
    have hval : (UInt16.ofNat i).toNat = i := by
      rw [UInt16.toNat_ofNat']
      exact Nat.mod_eq_of_lt (by have := linePointers_lt hpage; omega)
    rw [hval]
    refine normalTuples_fill (List.getElem?_eq_getElem hi) (List.getElem?_eq_getElem hlt) ?_ rfl _
    rw [hdead]
    exact lpDead_ne_lpNormal
  · unfold contents
    rw [normalTuples_concat hpage.length_eq rfl]
    exact grows_concat _ _

end Growth

section Room

variable {page page' : HeapPage} {tuple : Bytes} {used : Option UInt16}

/-- The bytes between the line pointers and the tuples. -/
def freeSpace (page : HeapPage) : Nat := page.header.pdUpper.toNat - page.header.pdLower.toNat

/-- The number of `LP_DEAD` slots. -/
def deadSlots (page : HeapPage) : Nat :=
  (page.linePointers.filter fun lp => lp.lpFlags = lpDead).length

theorem deadSlots_eq_zero_iff :
    deadSlots page = 0 ↔ page.linePointers.findIdx? (fun lp => lp.lpFlags = lpDead) = none := by
  rw [deadSlots, List.length_eq_zero_iff, List.filter_eq_nil_iff, List.findIdx?_eq_none_iff]
  simp

theorem length_filter_set {α : Type} (q : α → Bool) {l : List α} {i : Nat} {a : α}
    (h : l[i]? = some a) (b : α) :
    ((l.set i b).filter q).length + (if q a then 1 else 0) =
      (l.filter q).length + (if q b then 1 else 0) := by
  induction l generalizing i with
  | nil => simp at h
  | cons head l ih =>
      cases i with
      | zero =>
          simp only [List.getElem?_cons_zero, Option.some.injEq] at h
          subst h
          simp only [List.set_cons_zero, List.filter_cons]
          split
          · split
            · simp
            · simp
          · split
            · simp
            · simp
      | succ i =>
          have htail := ih h
          simp only [List.set_cons_succ, List.filter_cons]
          split
          · simp only [List.length_cons]
            omega
          · exact htail

theorem toNat_upper (hpage : WellFormed page) :
    (UInt16.ofNat (page.header.pdUpper.toNat - tuple.length)).toNat =
      page.header.pdUpper.toNat - tuple.length := by
  apply toNat_ofNat_of_le
  have hupper := hpage.upper_le
  omega

theorem toNat_lower (hpage : WellFormed page)
    (hroom : page.header.pdLower.toNat + linePointerSize ≤
      page.header.pdUpper.toNat - tuple.length) :
    (UInt16.ofNat (page.header.pdLower.toNat + linePointerSize)).toNat =
      page.header.pdLower.toNat + linePointerSize := by
  apply toNat_ofNat_of_le
  have hupper := hpage.upper_le
  omega

theorem addTuple_none (h : page.addTuple tuple = some (page', none)) :
    page' = page ∧ page.header.pdUpper.toNat - tuple.length <
      page.header.pdLower.toNat + (if deadSlots page = 0 then linePointerSize else 0) := by
  unfold HeapPage.addTuple at h
  cases hsub : checkedSub page.header.pdUpper.toNat tuple.length with
  | none => simp [hsub] at h
  | some newUpper =>
      obtain ⟨hle, rfl⟩ := checkedSub_eq_some.mp hsub
      simp only [hsub, Option.bind_eq_bind, Option.bind_some] at h
      cases hfind : page.linePointers.findIdx? (fun lp => lp.lpFlags = lpDead) with
      | none =>
          simp only [hfind, Option.map_none, Option.isNone_none, if_true] at h
          rw [if_pos (deadSlots_eq_zero_iff.mpr hfind)]
          split at h
          · rename_i hfull
            cases h
            exact ⟨rfl, hfull⟩
          · cases h
      | some i =>
          have hnonzero : deadSlots page ≠ 0 := by
            rw [ne_eq, deadSlots_eq_zero_iff, hfind]
            exact Option.some_ne_none i
          simp only [hfind, Option.map_some, Option.isNone_some, Bool.false_eq_true,
            if_false] at h
          rw [if_neg hnonzero]
          split at h
          · rename_i hfull
            cases h
            exact ⟨rfl, hfull⟩
          · cases h

/-- A tuple that does not fit goes nowhere; one that does takes a dead slot, if
there is one, and else the room of a line pointer too. -/
theorem addTuple_outcome (hpage : WellFormed page) (h : page.addTuple tuple = some (page', used)) :
    (used ≠ none ∧ deadSlots page ≠ 0 ∧ tuple.length ≤ freeSpace page ∧
        freeSpace page' = freeSpace page - tuple.length ∧ deadSlots page' = deadSlots page - 1 ∧
        (contents page' : Multiset Bytes) = (contents page : Multiset Bytes) + {tuple}) ∨
      (used ≠ none ∧ deadSlots page = 0 ∧ tuple.length + linePointerSize ≤ freeSpace page ∧
        freeSpace page' = freeSpace page - (tuple.length + linePointerSize) ∧
        deadSlots page' = deadSlots page ∧
        (contents page' : Multiset Bytes) = (contents page : Multiset Bytes) + {tuple}) ∨
      (used = none ∧
        freeSpace page < tuple.length + (if deadSlots page = 0 then linePointerSize else 0) ∧
        page' = page) := by
  obtain ⟨hle, ⟨-, rfl, -⟩ | ⟨i, hfind, rfl, hroom, hpage'⟩ | ⟨hfind, rfl, hroom, hpage'⟩⟩ :=
    addTuple_cases h
  · obtain ⟨hsame, hfull⟩ := addTuple_none h
    have hlower := hpage.lower_le_upper
    refine Or.inr (Or.inr ⟨rfl, ?_, hsame⟩)
    unfold freeSpace
    omega
  · obtain ⟨hi, hdead, _⟩ := List.findIdx?_eq_some_iff_getElem.mp hfind
    have hlp : page.linePointers[i]? = some page.linePointers[i] := List.getElem?_eq_getElem hi
    simp only [decide_eq_true_eq] at hdead
    have hlt : i < page.tuples.length := by
      rw [hpage.length_eq]
      exact hi
    have hval : (UInt16.ofNat i).toNat = i := by
      rw [UInt16.toNat_ofNat']
      exact Nat.mod_eq_of_lt (by have := linePointers_lt hpage; omega)
    have hnonzero : deadSlots page ≠ 0 := by
      intro hzero
      rw [deadSlots_eq_zero_iff, hfind] at hzero
      cases hzero
    rw [hval] at hpage'
    have hfewer := length_filter_set (fun lp => decide (lp.lpFlags = lpDead)) hlp
      (LinePointer.new (UInt16.ofNat (page.header.pdUpper.toNat - tuple.length)))
    refine Or.inl ⟨Option.some_ne_none _, hnonzero, by unfold freeSpace; omega, ?_, ?_,
      (contents_addTuple hpage h).coe_eq⟩
    · rw [hpage']
      simp only [freeSpace, toNat_upper hpage]
      omega
    · rw [hpage']
      simp only [hdead, LinePointer.new, decide_true, if_true, lpDead_ne_lpNormal.symm,
        decide_false, Bool.false_eq_true, if_false] at hfewer
      unfold deadSlots
      simp only [LinePointer.new]
      omega
  · have hzero := deadSlots_eq_zero_iff.mpr hfind
    refine Or.inr (Or.inl ⟨Option.some_ne_none _, hzero, by unfold freeSpace; omega, ?_, ?_,
      (contents_addTuple hpage h).coe_eq⟩)
    · rw [hpage']
      simp only [freeSpace, toNat_upper hpage, toNat_lower hpage hroom]
      omega
    · rw [hpage']
      simp [deadSlots, LinePointer.new, lpDead_ne_lpNormal.symm]

/-- A HOT update of a normal slot redirects it to the new tuple if there is room
for it and a line pointer. -/
theorem hotUpdate_outcome {slot : UInt16} {lp : LinePointer} {old : Bytes}
    (hpage : WellFormed page) (hlp : page.linePointers[slot.toNat]? = some lp)
    (hnormal : lp.lpFlags = lpNormal) (hold : page.tuples[slot.toNat]? = some old)
    (h : page.hotUpdate slot tuple = some (page', used)) :
    (tuple.length + linePointerSize ≤ freeSpace page ∧ used ≠ none ∧
        freeSpace page' = freeSpace page - (tuple.length + linePointerSize) ∧
        deadSlots page' = deadSlots page ∧
        (contents page' : Multiset Bytes) + {old} = (contents page : Multiset Bytes) + {tuple} ∧
        ∃ lp', page'.linePointers[slot.toNat]? = some lp' ∧ lp'.lpFlags ≠ lpNormal) ∨
      (freeSpace page < tuple.length + linePointerSize ∧ used = none ∧ page' = page) := by
  have hlower := hpage.lower_le_upper
  have hlt := (List.getElem?_eq_some_iff.mp hlp).1
  have hlt' := (List.getElem?_eq_some_iff.mp hold).1
  unfold HeapPage.hotUpdate at h
  simp only [hlp, hnormal, ne_eq, not_true_eq_false, if_false] at h
  cases hsub : checkedSub page.header.pdUpper.toNat tuple.length with
  | none => simp [hsub] at h
  | some newUpper =>
      obtain ⟨hle, rfl⟩ := checkedSub_eq_some.mp hsub
      simp only [hsub, Option.bind_eq_bind, Option.bind_some] at h
      split at h
      · rename_i hfull
        cases h
        exact Or.inr ⟨by unfold freeSpace; omega, rfl, rfl⟩
      · rename_i hroom
        have hroom := Nat.not_lt.mp hroom
        cases h
        set added := LinePointer.new (UInt16.ofNat (page.header.pdUpper.toNat - tuple.length))
          with hadded
        have hredirect : (page.linePointers ++ [added])[slot.toNat]? = some lp := by
          rw [List.getElem?_append_left hlt, hlp]
        have hkept : (page.tuples ++ [tuple])[slot.toNat]? = some old := by
          rw [List.getElem?_append_left hlt', hold]
        refine Or.inl ⟨by unfold freeSpace; omega, by simp, ?_, ?_, ?_, ?_⟩
        · simp only [freeSpace, toNat_upper hpage, toNat_lower hpage hroom]
          omega
        · have hsame := length_filter_set (fun lp => decide (lp.lpFlags = lpDead)) hredirect
            ⟨UInt16.ofNat page.linePointers.length, lpRedirect⟩
          simpa [deadSlots, hnormal, hadded, LinePointer.new, lpDead_ne_lpNormal.symm,
            show lpRedirect ≠ lpDead by decide] using hsame
        · have hretired := normalTuples_set hredirect hkept
            ⟨UInt16.ofNat page.linePointers.length, lpRedirect⟩ old
          obtain ⟨hlast, hsame⟩ := List.getElem?_eq_some_iff.mp hkept
          rw [← hsame, List.set_getElem_self hlast, hsame,
            normalTuples_concat hpage.length_eq rfl, ← Multiset.coe_add] at hretired
          simpa [contents, slotContents, hnormal, hadded, LinePointer.new,
            lpRedirect_ne_lpNormal] using hretired
        · refine ⟨_, List.getElem?_set_self ?_, lpRedirect_ne_lpNormal⟩
          rw [List.length_append]
          omega

end Room

end PostgressRs.Storage.PageContents
