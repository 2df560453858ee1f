import Mathlib.Algebra.Order.BigOperators.Group.List
import PostgressRs.Executor.PooledScan
import PostgressRs.Executor.SnapshotStability

/-!
When `tuple_update` replaces the column in the rows it matches and keeps the
other rows.
-/

namespace PostgressRs.Executor.UpdateConservation

open PostgressRs.BufferCache.PagePool
open PostgressRs.BufferCache.SharedCache
open PostgressRs.Executor.HeapAccess
open PostgressRs.Executor.HeapContents
open PostgressRs.Executor.HeapInvariant
open PostgressRs.Executor.HeapSteps
open PostgressRs.Executor.InsertComplete
open PostgressRs.Executor.PooledScan
open PostgressRs.Executor.RelationIsolation
open PostgressRs.Executor.RowVersions
open PostgressRs.Executor.SnapshotStability
open PostgressRs.Executor.VacuumEffects
open PostgressRs.Executor.VersionChanges
open PostgressRs.Lib.ByteBuffer
open PostgressRs.Lib.Procedure
open PostgressRs.Lib.Transitions
open PostgressRs.Lib.Utf8
open PostgressRs.Storage.PageContents
open PostgressRs.Storage.PageRoundTrip
open PostgressRs.Storage.PageStore
open PostgressRs.Storage.SlottedPage
open PostgressRs.Txn.TransactionTable
open PostgressRs.Types
open PostgressRs.Wal.LogRecord
open PostgressRs.Wal.WriteAheadLog

section Columns

/-- The text of a field, empty if it is not UTF-8. -/
def fieldText (bytes : Bytes) : String := (fromUtf8 bytes).getD ""

/-- The number of columns that a version has a value for. -/
def width (tup : Tuple) : Nat := min tup.slots.length (tup.data.splitOn 0).length

theorem fieldText_nil : fieldText [] = "" := by
  rw [fieldText, ← asBytes_empty, fromUtf8_asBytes]
  rfl

/-- Data without a separator, or a first field and the rest. -/
theorem fields_cases (data : Bytes) :
    0 ∉ data ∨ ∃ value rest, 0 ∉ value ∧ data = value ++ 0 :: rest := by
  by_cases hmem : 0 ∈ data
  · obtain ⟨value, rest, hdata, hvalue⟩ := List.eq_append_cons_of_mem hmem
    exact Or.inr ⟨value, rest, hvalue, hdata⟩
  · exact Or.inl hmem

theorem not_mem_of_mem_splitOn {data part : Bytes} (h : part ∈ data.splitOn 0) : 0 ∉ part := by
  induction hlen : data.length using Nat.strong_induction_on generalizing data with
  | _ n ih =>
      rcases fields_cases data with hlast | ⟨value, rest, hvalue, rfl⟩
      · rw [List.splitOn_eq_singleton hlast, List.mem_singleton] at h
        rw [h]
        exact hlast
      · rw [List.splitOn_append_cons_self_of_not_mem hvalue] at h
        rcases List.mem_cons.mp h with rfl | hrest
        · exact hvalue
        · refine ih rest.length ?_ hrest rfl
          rw [← hlen, List.length_append, List.length_cons]
          omega

theorem map_range_empty {f : Nat → String} (h : ∀ i, f i = "") (n : Nat) :
    (List.range n).map f = List.replicate n "" := by
  rw [List.eq_replicate_iff]
  simp [h]

/-- The value of a column: what stands between the separators. -/
def columnText (slots : Nat) (data : Bytes) (i : Nat) : String :=
  if i < slots then fieldText ((data.splitOn 0).getD i []) else ""

theorem columnText_zero (data : Bytes) (i : Nat) : columnText 0 data i = "" :=
  if_neg (Nat.not_lt_zero i)

theorem columnText_nil (slots i : Nat) : columnText slots [] i = "" := by
  unfold columnText
  split
  · cases i with
    | zero => exact fieldText_nil
    | succ i => exact fieldText_nil
  · rfl

theorem columnText_last {data : Bytes} (hlast : 0 ∉ data) (slots i : Nat) :
    columnText slots data (i + 1) = "" := by
  unfold columnText
  rw [List.splitOn_eq_singleton hlast]
  split
  · exact fieldText_nil
  · rfl

theorem columnText_succ {value : Bytes} (hvalue : 0 ∉ value) (rest : Bytes) {slots : Nat}
    (hslots : 0 < slots) (i : Nat) :
    columnText slots (value ++ 0 :: rest) (i + 1) = columnText (slots - 1) rest i := by
  unfold columnText
  rw [List.splitOn_append_cons_self_of_not_mem hvalue, List.getD_cons_succ]
  by_cases hlt : i < slots - 1
  · rw [if_pos hlt, if_pos (by omega)]
  · rw [if_neg hlt, if_neg (by omega)]

theorem decodeFields_eq (fields slots : Nat) (data : Bytes) :
    decodeFields fields slots data = (List.range fields).map (columnText slots data) := by
  induction fields generalizing slots data with
  | zero => rfl
  | succ fields ih =>
      rw [List.range_succ_eq_map, List.map_cons, List.map_map, decodeFields]
      split
      · rename_i hsome
        obtain ⟨hslots, _⟩ := hsome
        rcases fields_cases data with hlast | ⟨value, rest, hvalue, rfl⟩
        · have hfirst : columnText slots data 0 = fieldText data := by
            rw [columnText, if_pos hslots, List.splitOn_eq_singleton hlast, List.getD_cons_zero]
          have hrest : (List.range fields).map (columnText slots data ∘ Nat.succ) =
              List.replicate fields "" := map_range_empty (columnText_last hlast slots) fields
          rw [(takeWhile_last hlast).1, (takeWhile_last hlast).2, hfirst, hrest]
          rfl
        · have hfirst : columnText slots (value ++ 0 :: rest) 0 = fieldText value := by
            rw [columnText, if_pos hslots, List.splitOn_append_cons_self_of_not_mem hvalue,
              List.getD_cons_zero]
          rw [(takeWhile_value hvalue rest).1, (takeWhile_value hvalue rest).2, hfirst]
          refine congrArg _ ((ih (slots - 1) rest).trans ?_)
          apply List.map_congr_left
          intro i _
          exact (columnText_succ hvalue rest hslots i).symm
      · rename_i hnone
        rw [ih]
        by_cases hslots : slots = 0
        · subst hslots
          have hrest : (List.range fields).map (columnText 0 data ∘ Nat.succ) =
              List.replicate fields "" := map_range_empty (fun i => columnText_zero data _) fields
          rw [columnText_zero, map_range_empty (columnText_zero data), hrest]
        · have hdata : data = [] := by
            by_contra hne
            exact hnone ⟨Nat.pos_of_ne_zero hslots, hne⟩
          subst hdata
          have hrest : (List.range fields).map (columnText slots [] ∘ Nat.succ) =
              List.replicate fields "" := map_range_empty (fun i => columnText_nil slots _) fields
          rw [columnText_nil, map_range_empty (columnText_nil (slots - 1)), hrest]

theorem decodeTupleValues_eq (tup : Tuple) (desc : TupleDesc) :
    decodeTupleValues tup desc =
      (List.range desc.fields.length).map (columnText tup.slots.length tup.data) := by
  unfold decodeTupleValues
  split
  · rename_i hempty
    rw [List.isEmpty_iff.mp hempty, map_range_empty (columnText_nil _)]
  · exact decodeFields_eq _ _ _

/-- Rebuilding the data of a version sets the column in its row. -/
theorem decodeTupleValues_updated {tup : Tuple} {columnIdx : Nat} {value : String}
    (hwidth : columnIdx < width tup) (hvalue : 0 ∉ asBytes value) (desc : TupleDesc)
    (xid : UInt64) :
    ∃ newData, buildUpdatedData tup.data columnIdx (asBytes value) = some newData ∧
      decodeTupleValues { tup with xmin := xid, xmax := 0, data := newData } desc =
        (decodeTupleValues tup desc).set columnIdx value := by
  have hslots : columnIdx < tup.slots.length := lt_of_lt_of_le hwidth (min_le_left _ _)
  have hparts : columnIdx < (tup.data.splitOn 0).length :=
    lt_of_lt_of_le hwidth (min_le_right _ _)
  refine ⟨_, if_pos hparts, ?_⟩
  have hsplit : ([0].intercalate ((tup.data.splitOn 0).set columnIdx (asBytes value))).splitOn 0 =
      (tup.data.splitOn 0).set columnIdx (asBytes value) := by
    apply List.splitOn_intercalate
    · intro part hpart
      rcases List.mem_or_eq_of_mem_set hpart with hold | rfl
      · exact not_mem_of_mem_splitOn hold
      · exact hvalue
    · rw [ne_eq, List.set_eq_nil_iff]
      exact List.splitOn_ne_nil _ _
  rw [decodeTupleValues_eq, decodeTupleValues_eq]
  apply List.ext_getElem
  · simp
  · intro i hi hi'
    simp only [List.getElem_map, List.getElem_range, List.getElem_set, columnText, hsplit]
    by_cases hcolumn : columnIdx = i
    · subst hcolumn
      rw [if_pos hslots, if_pos rfl, List.getD_eq_getElem?_getD, List.getElem?_set_self hparts]
      simp [fieldText, fromUtf8_asBytes]
    · rw [if_neg hcolumn, List.getD_eq_getElem?_getD, List.getD_eq_getElem?_getD,
        List.getElem?_set_ne hcolumn]

end Columns

section Matches

variable [Bincode] {desc : TupleDesc} {columnIdx : Nat} {newValue : Bytes}
  {filter : Option Filter}

/-- The version's row passes the filter. -/
def Matches (desc : TupleDesc) (filter : Option Filter) (tup : Tuple) : Prop :=
  writeFilter (decodeTupleValues tup desc) filter = true

instance : DecidablePred (Matches desc filter) := fun _ => inferInstanceAs (Decidable (_ = true))

theorem changesFrom_pairs (fateOf : Nat → Nat → Nat → Fate) (room : Nat × Nat) (xid : UInt64)
    (work : List (Tuple × Bytes)) :
    (changesFrom fateOf room xid work).map (fun change => (change.old, change.data)) = work := by
  induction work generalizing room xid with
  | nil => rfl
  | cons entry work ih => simp only [changesFrom, List.map_cons, ih]

theorem matchingTuples_versions (page : HeapPage) :
    (matchingTuples page desc filter).map Prod.snd =
      (page.tuples.filterMap fun bytes => (deserializeTuple bytes).toOption).filter
        fun tup => decide (Matches desc filter tup) := by
  have hfst : ∀ f : Bytes → Option Tuple, page.tuples.zipIdx.filterMap (fun entry => f entry.1) =
      page.tuples.filterMap f := by
    intro f
    rw [← List.zipIdx_map_fst 0 page.tuples, List.filterMap_map, List.zipIdx_map_fst]
    rfl
  rw [matchingTuples, List.map_filterMap, ← List.filterMap_eq_filter, List.filterMap_filterMap,
    ← hfst]
  congr 1
  funext entry
  obtain ⟨bytes, slot⟩ := entry
  cases hdecoded : deserializeTuple bytes with
  | error e => simp [hdecoded, Except.toOption]
  | ok tup =>
      by_cases hmatch : writeFilter (decodeTupleValues tup desc) filter = true
      · simp [hdecoded, hmatch, Except.toOption, Option.guard, Matches]
      · simp [hdecoded, hmatch, Except.toOption, Option.guard, Matches]

theorem stored_decodable [LawfulBincode] (page : HeapPage) :
    ((stored page).tuples.filterMap fun bytes => (deserializeTuple bytes).toOption :
      Multiset Tuple) = versions page := by
  obtain ⟨e, hnil⟩ := LawfulBincode.deserialize_nil
  rw [versions, decodable, Multiset.filterMap_coe]
  congr 1
  exact filterMap_restored _ (by rw [hnil]; rfl) _ _

/-- An update changes the versions on a page that match, if they have the column. -/
theorem updateChanges_olds [LawfulBincode] {page : HeapPage}
    (hwidth : ∀ tup ∈ versions page, columnIdx < width tup) (xid : UInt64) :
    ((updateChanges desc columnIdx newValue filter (stored page) xid).map Change.old :
        Multiset Tuple) = (versions page).filter (Matches desc filter) := by
  have holds : (updateChanges desc columnIdx newValue filter (stored page) xid).map Change.old =
      (tuplesToUpdate (stored page) desc columnIdx newValue filter).map fun entry => entry.2.1 := by
    have hpairs := changesFrom_pairs updateFate (room (stored page)) xid
      ((tuplesToUpdate (stored page) desc columnIdx newValue filter).map fun entry =>
        (entry.2.1, entry.2.2))
    have hfst := congrArg (List.map Prod.fst) hpairs
    rw [List.map_map, List.map_map] at hfst
    exact hfst
  have hmatching : (tuplesToUpdate (stored page) desc columnIdx newValue filter).map
      (fun entry => entry.2.1) = (matchingTuples (stored page) desc filter).map Prod.snd := by
    rw [tuplesToUpdate, List.map_filterMap, ← List.filterMap_eq_map]
    apply List.filterMap_congr
    rintro ⟨slot, tup⟩ hmem
    have hversion : tup ∈ versions page := by
      have hsnd : tup ∈ (matchingTuples (stored page) desc filter).map Prod.snd :=
        List.mem_map_of_mem hmem
      rw [matchingTuples_versions] at hsnd
      rw [← stored_decodable]
      exact (List.mem_filter.mp hsnd).1
    have hparts := lt_of_lt_of_le (hwidth tup hversion) (min_le_right _ _)
    simp [buildUpdatedData, hparts]
  rw [holds, hmatching, matchingTuples_versions, ← Multiset.filter_coe, stored_decodable]

theorem updateChanges_data {page : HeapPage} {xid : UInt64} {change : Change}
    (h : change ∈ updateChanges desc columnIdx newValue filter page xid) :
    buildUpdatedData change.old.data columnIdx newValue = some change.data := by
  have hpair := List.mem_map_of_mem (f := fun change : Change => (change.old, change.data)) h
  rw [updateChanges, changesFrom_pairs] at hpair
  obtain ⟨⟨slot, tup, data⟩, hmem, heq⟩ := List.mem_map.mp hpair
  obtain ⟨⟨slot', tup'⟩, _, hentry⟩ := List.mem_filterMap.mp hmem
  obtain ⟨data', hdata, hsame⟩ := Option.map_eq_some_iff.mp hentry
  cases hsame
  simp only [Prod.mk.injEq] at heq
  rw [← heq.1, ← heq.2]
  exact hdata

variable {σ : Type} [StorageTrait σ] {storage : σ} {ids : List PageId}

/-- What a statement changes on each page, it changes on all pages. -/
theorem changesOn_matching [LawfulBincode] {P : Tuple → Prop}
    {changesAt : HeapPage → UInt64 → List Change}
    (hat : ∀ page xid, (∀ tup ∈ versions page, P tup) →
      ((changesAt (stored page) xid).map Change.old : Multiset Tuple) =
        (versions page).filter (Matches desc filter))
    (hcoded : ∀ q ∈ ids, CodedAt (fun _ => True) storage q)
    (hP : ∀ tup ∈ versionsOn storage ids, P tup) (xid : UInt64) :
    ((changesOn changesAt storage ids xid).map Change.old : Multiset Tuple) =
      (versionsOn storage ids).filter (Matches desc filter) := by
  induction ids generalizing xid with
  | nil => rfl
  | cons q ids ih =>
      obtain ⟨page, hpage, hread⟩ := hcoded q List.mem_cons_self
      have hpageOf : pageOf storage q = some (stored page) := by
        rw [pageOf, hread]
        exact deserialize_image hpage.wellFormed
      rw [versionsOn_cons hread hpage.wellFormed] at hP ⊢
      rw [changesOn, List.map_append, ← Multiset.coe_add, Multiset.filter_add,
        ih (fun r hr => hcoded r (List.mem_cons_of_mem _ hr))
          fun tup htup => hP tup (Multiset.mem_add.mpr (Or.inr htup))]
      simp only [hpageOf, Option.map_some, Option.getD_some]
      rw [hat page xid fun tup htup => hP tup (Multiset.mem_add.mpr (Or.inl htup))]

theorem changesOn_olds [LawfulBincode]
    (hcoded : ∀ q ∈ ids, CodedAt (fun _ => True) storage q)
    (hwidth : ∀ tup ∈ versionsOn storage ids, columnIdx < width tup) (xid : UInt64) :
    ((changesOn (updateChanges desc columnIdx newValue filter) storage ids xid).map Change.old :
        Multiset Tuple) = (versionsOn storage ids).filter (Matches desc filter) :=
  changesOn_matching (fun _ xid h => updateChanges_olds h xid) hcoded hwidth xid

/-- A delete changes the versions that match. -/
theorem changesOn_deleted [LawfulBincode]
    (hcoded : ∀ q ∈ ids, CodedAt (fun _ => True) storage q) (xid : UInt64) :
    ((changesOn (deleteChanges desc filter) storage ids xid).map Change.old : Multiset Tuple) =
      (versionsOn storage ids).filter (Matches desc filter) := by
  refine changesOn_matching (P := fun _ => True) ?_ hcoded (fun _ _ => trivial) xid
  intro page xid _
  have hpairs := changesFrom_pairs deleteFate (room (stored page)) xid
    ((matchingTuples (stored page) desc filter).map fun entry => (entry.2, entry.2.data))
  have hfst := congrArg (List.map Prod.fst) hpairs
  rw [List.map_map, List.map_map] at hfst
  have holds : (deleteChanges desc filter (stored page) xid).map Change.old =
      (matchingTuples (stored page) desc filter).map Prod.snd := hfst
  rw [holds, matchingTuples_versions, ← Multiset.filter_coe, stored_decodable]

omit [Bincode] in
theorem mem_changesOn {changesAt : HeapPage → UInt64 → List Change} {xid : UInt64}
    {change : Change} (h : change ∈ changesOn changesAt storage ids xid) :
    ∃ page xid', change ∈ changesAt page xid' := by
  induction ids generalizing xid with
  | nil => cases h
  | cons q ids ih =>
      rw [changesOn] at h
      rcases List.mem_append.mp h with hhead | htail
      · cases hpage : pageOf storage q with
        | none =>
            rw [hpage] at hhead
            cases hhead
        | some page =>
            rw [hpage] at hhead
            exact ⟨page, xid, hhead⟩
      · exact ih htail

end Matches

section Conservation

variable {desc : TupleDesc} {columnIdx : Nat} {value : String}

/-- The version is one that `slow_scan` shows, and its next version takes its
place there.  If `slow_scan` does not take the new xid as done, the old version
has to stay and to have the value. -/
def Conserved (desc : TupleDesc) (columnIdx : Nat) (value : String) (change : Change) : Prop :=
  isVisible change.old maxSnapshot = true ∧
    if Covers maxSnapshot change.xid then change.fate ≠ .stamped
    else change.fate ≠ .replaced ∧
      (decodeTupleValues change.old desc).set columnIdx value = decodeTupleValues change.old desc

/-- The rows of a change that are shown afterwards. -/
theorem shownRows_after {change : Change} (hvisible : isVisible change.old maxSnapshot = true)
    (hnext : decodeTupleValues change.next desc =
      (decodeTupleValues change.old desc).set columnIdx value) :
    shownRows maxSnapshot desc change.after =
      if Covers maxSnapshot change.xid then
        if change.fate = .stamped then 0
        else {(decodeTupleValues change.old desc).set columnIdx value}
      else if change.fate = .replaced then 0 else {decodeTupleValues change.old desc} := by
  obtain ⟨hmin, _⟩ := (isVisible_iff _ _).mp hvisible
  have hstamp := @isVisible_stamp maxSnapshot change
  have hshown := @isVisible_next maxSnapshot change
  unfold Change.after
  cases hfate : change.fate with
  | stamped =>
      by_cases hxid : Covers maxSnapshot change.xid
      · simp [shownRows_singleton, hstamp, hmin, hxid]
      · simp [shownRows_singleton, hstamp, hmin, hxid, decodeTupleValues_stamp]
  | followed =>
      by_cases hxid : Covers maxSnapshot change.xid
      · simp only [shownRows_add, shownRows_singleton, hstamp, hshown, hnext]
        simp [hmin, hxid]
      · simp only [shownRows_add, shownRows_singleton, hstamp, hshown, decodeTupleValues_stamp]
        simp [hmin, hxid]
  | replaced =>
      by_cases hxid : Covers maxSnapshot change.xid
      · simp [shownRows_singleton, hshown, hxid, hnext]
      · simp [shownRows_singleton, hshown, hxid]

theorem eq_one_of_sum {α : Type} {n : α → Nat} {l : List α} (hle : ∀ a ∈ l, n a ≤ 1)
    (hsum : (l.map n).sum = l.length) : ∀ a ∈ l, n a = 1 := by
  induction l with
  | nil => simp
  | cons head l ih =>
      have htail : (l.map n).sum ≤ l.length := by
        have hbound := List.sum_le_card_nsmul (l.map n) 1 fun x hx => by
          obtain ⟨a, ha, rfl⟩ := List.mem_map.mp hx
          exact hle a (List.mem_cons_of_mem _ ha)
        simpa using hbound
      have hhead := hle head List.mem_cons_self
      rw [List.map_cons, List.sum_cons, List.length_cons] at hsum
      intro a ha
      rcases List.mem_cons.mp ha with rfl | ha
      · omega
      · exact ih (fun b hb => hle b (List.mem_cons_of_mem _ hb)) (by omega) a ha

theorem sum_map_singleton {α β : Type} (f : α → β) (l : List α) :
    (l.map fun a => ({f a} : Multiset β)).sum = (l.map f : Multiset β) := by
  induction l with
  | nil => rfl
  | cons a l ih =>
      rw [List.map_cons, List.sum_cons, ih, List.map_cons, ← Multiset.cons_coe,
        Multiset.singleton_add]

theorem mem_sum_map {α β : Type} {f : α → Multiset β} {l : List α} {a : α} {b : β} (ha : a ∈ l)
    (hb : b ∈ f a) : b ∈ (l.map f).sum := by
  obtain ⟨front, rest, rfl⟩ := List.append_of_mem ha
  rw [List.map_append, List.sum_append, List.map_cons, List.sum_cons, Multiset.mem_add,
    Multiset.mem_add]
  exact Or.inr (Or.inl hb)

/-- The changes show the rows they found with the column set exactly if each of
them does its part. -/
theorem shown_eq_set_iff {changes : List Change}
    (hvisible : ∀ change ∈ changes, isVisible change.old maxSnapshot = true)
    (hnext : ∀ change ∈ changes, decodeTupleValues change.next desc =
      (decodeTupleValues change.old desc).set columnIdx value) :
    (changes.map fun change => shownRows maxSnapshot desc change.after).sum =
        (changes.map fun change => (decodeTupleValues change.old desc).set columnIdx value :
          Multiset (List String)) ↔
      ∀ change ∈ changes, Conserved desc columnIdx value change := by
  have hafter := fun change hchange =>
    shownRows_after (hvisible change hchange) (hnext change hchange)
  constructor
  · intro heq
    have hcards : (changes.map fun change =>
        (shownRows maxSnapshot desc change.after).card).sum = changes.length := by
      have hcard := congrArg Multiset.card heq
      rw [Multiset.coe_card, List.length_map] at hcard
      rw [← hcard]
      exact List.sum_map_hom changes _ Multiset.cardHom
    have hone : ∀ change ∈ changes, (shownRows maxSnapshot desc change.after).card = 1 := by
      refine eq_one_of_sum ?_ hcards
      intro change hchange
      rw [hafter change hchange]
      split
      · split
        · exact Nat.zero_le 1
        · exact Nat.le_refl 1
      · split
        · exact Nat.zero_le 1
        · exact Nat.le_refl 1
    intro change hchange
    refine ⟨hvisible change hchange, ?_⟩
    have hshown := hone change hchange
    rw [hafter change hchange] at hshown
    split
    · rename_i hxid
      rw [if_pos hxid] at hshown
      intro hfate
      rw [if_pos hfate] at hshown
      cases hshown
    · rename_i hxid
      have hfate : change.fate ≠ .replaced := by
        intro hfate
        rw [if_neg hxid, if_pos hfate] at hshown
        cases hshown
      refine ⟨hfate, ?_⟩
      -- the row itself is shown, so it is one of those with the column set
      have hmem : decodeTupleValues change.old desc ∈
          (changes.map fun change => shownRows maxSnapshot desc change.after).sum := by
        refine mem_sum_map hchange ?_
        rw [hafter change hchange, if_neg hxid, if_neg hfate]
        exact Multiset.mem_singleton_self _
      rw [heq, Multiset.mem_coe] at hmem
      obtain ⟨other, _, hother⟩ := List.mem_map.mp hmem
      rw [← hother, List.set_set]
  · intro hconserved
    rw [← sum_map_singleton]
    congr 1
    apply List.map_congr_left
    intro change hchange
    obtain ⟨_, hkept⟩ := hconserved change hchange
    rw [hafter change hchange]
    split
    · rename_i hxid
      rw [if_pos hxid] at hkept
      rw [if_neg hkept]
    · rename_i hxid
      rw [if_neg hxid] at hkept
      rw [if_neg hkept.1, hkept.2]

variable {filter : Option Filter}

/-- A row after the update. -/
def updatedRow (columnIdx : Nat) (value : String) (filter : Option Filter) (row : List String) :
    List String :=
  if writeFilter row filter = true then row.set columnIdx value else row

theorem mem_shownRows {snapshot : Snapshot} {versions : Multiset Tuple} {row : List String} :
    row ∈ shownRows snapshot desc versions ↔
      ∃ tup ∈ versions, isVisible tup snapshot = true ∧ decodeTupleValues tup desc = row := by
  simp only [shownRows, Multiset.mem_map, Multiset.mem_filter, and_assoc]

theorem shownRows_updated (versions : Multiset Tuple) :
    (shownRows maxSnapshot desc versions).map (updatedRow columnIdx value filter) =
      (shownRows maxSnapshot desc (versions.filter (Matches desc filter))).map
          (fun row => row.set columnIdx value) +
        shownRows maxSnapshot desc (versions.filter fun tup => ¬Matches desc filter tup) := by
  have hsplit : shownRows maxSnapshot desc versions =
      shownRows maxSnapshot desc (versions.filter (Matches desc filter)) +
        shownRows maxSnapshot desc (versions.filter fun tup => ¬Matches desc filter tup) := by
    rw [← shownRows_add, Multiset.filter_add_not]
  rw [hsplit, Multiset.map_add]
  congr 1
  · apply Multiset.map_congr rfl
    intro row hrow
    obtain ⟨tup, htup, _, rfl⟩ := mem_shownRows.mp hrow
    exact if_pos (Multiset.mem_filter.mp htup).2
  · refine (Multiset.map_congr rfl ?_).trans (Multiset.map_id _)
    intro row hrow
    obtain ⟨tup, htup, _, rfl⟩ := mem_shownRows.mp hrow
    exact if_neg (Multiset.mem_filter.mp htup).2

theorem shownRows_matching (versions : Multiset Tuple) :
    (shownRows maxSnapshot desc versions).filter (fun row => writeFilter row filter = true) =
      shownRows maxSnapshot desc (versions.filter (Matches desc filter)) := by
  rw [shownRows, shownRows, Multiset.filter_map, Multiset.filter_filter, Multiset.filter_filter]
  congr 1
  apply Multiset.filter_congr
  intro tup _
  exact and_comm

theorem card_shownRows_iff (versions : Multiset Tuple) :
    versions.card = (shownRows maxSnapshot desc versions).card ↔
      ∀ tup ∈ versions, isVisible tup maxSnapshot = true := by
  rw [shownRows, Multiset.card_map, eq_comm, ← Multiset.filter_eq_self]
  constructor
  · intro hcard
    exact Multiset.eq_of_le_of_card_le (Multiset.filter_le _ _) hcard.ge
  · intro hself
    rw [hself]

theorem shownRows_of_visible {versions : Multiset Tuple}
    (h : ∀ tup ∈ versions, isVisible tup maxSnapshot = true) :
    shownRows maxSnapshot desc versions =
      versions.map fun tup => decodeTupleValues tup desc := by
  rw [shownRows, Multiset.filter_eq_self.mpr h]

theorem shownRows_sum (changes : List Change) :
    shownRows maxSnapshot desc (changes.map Change.after).sum =
      (changes.map fun change => shownRows maxSnapshot desc change.after).sum := by
  induction changes with
  | nil => rfl
  | cons change changes ih =>
      rw [List.map_cons, List.sum_cons, shownRows_add, ih, List.map_cons, List.sum_cons]

/-- The versions that match are exchanged for what shows them with the column
set, and are all visible, exactly if every change conserves its row. -/
theorem exchanged_conserves_iff {changes : List Change} {before after : Multiset Tuple}
    (hexchanged : Exchanged changes before after)
    (holds : (changes.map Change.old : Multiset Tuple) = before.filter (Matches desc filter))
    (hnext : ∀ change ∈ changes, decodeTupleValues change.next desc =
      (decodeTupleValues change.old desc).set columnIdx value) :
    (shownRows maxSnapshot desc after =
          (shownRows maxSnapshot desc before).map (updatedRow columnIdx value filter) ∧
        changes.length = ((shownRows maxSnapshot desc before).filter fun row =>
          writeFilter row filter = true).card) ↔
      ∀ change ∈ changes, Conserved desc columnIdx value change := by
  have hcount : changes.length =
        (shownRows maxSnapshot desc (changes.map Change.old : Multiset Tuple)).card ↔
      ∀ change ∈ changes, isVisible change.old maxSnapshot = true := by
    have hcard := @card_shownRows_iff desc (changes.map Change.old : Multiset Tuple)
    rw [Multiset.coe_card, List.length_map] at hcard
    rw [hcard]
    simp only [Multiset.mem_coe, List.forall_mem_map]
  have hafter : shownRows maxSnapshot desc after =
      (changes.map fun change => shownRows maxSnapshot desc change.after).sum +
        shownRows maxSnapshot desc (before.filter fun tup => ¬Matches desc filter tup) := by
    have hrows := congrArg (shownRows maxSnapshot desc) hexchanged
    rw [shownRows_add, shownRows_add, shownRows_sum,
      ← Multiset.filter_add_not (Matches desc filter) before, shownRows_add, ← holds] at hrows
    apply add_right_cancel (hrows.trans ?_)
    rw [add_right_comm, add_comm (shownRows _ _ (changes.map Change.old : Multiset Tuple)),
      add_right_comm]
  have hset : (∀ change ∈ changes, isVisible change.old maxSnapshot = true) →
      (shownRows maxSnapshot desc (changes.map Change.old : Multiset Tuple)).map
          (fun row => row.set columnIdx value) =
        (changes.map fun change => (decodeTupleValues change.old desc).set columnIdx value :
          Multiset (List String)) := by
    intro hvisible
    rw [shownRows_of_visible]
    · rw [Multiset.map_map, Multiset.map_coe, List.map_map]
      rfl
    · simpa only [Multiset.mem_coe, List.forall_mem_map] using hvisible
  rw [shownRows_updated, shownRows_matching, ← holds, hcount, hafter, add_left_inj]
  constructor
  · rintro ⟨hrows, hvisible⟩
    rw [hset hvisible] at hrows
    exact (shown_eq_set_iff hvisible hnext).mp hrows
  · intro hconserved
    have hvisible := fun change hchange => (hconserved change hchange).1
    rw [hset hvisible]
    exact ⟨(shown_eq_set_iff hvisible hnext).mpr hconserved, hvisible⟩

end Conservation

section Reachable

variable [Bincode] {σ : Type} [StorageTrait σ] [LawfulStorage σ] [LawfulBincode] {relOid : Oid}
  {db db' : Database σ}

theorem sane_step {op : HeapOp} (hop : op ≠ .heapScan)
    (h : ∃ rel, Sane (fun _ => True) relOid rel db) (hstep : HeapStep relOid db op db') :
    ∃ rel, Sane (fun _ => True) relOid rel db' := by
  obtain ⟨rel, h⟩ := h
  cases op with
  | tupleInsert values =>
      obtain ⟨rel', hsane, _⟩ := h.inserted (P := fun _ => True) trivial (tupleInsert_state hstep)
      exact ⟨rel', hsane⟩
  | tupleUpdate columnIdx newValue filter =>
      exact ⟨rel, h.rewrites (tupleUpdate_rewrites h (fun _ _ => stamps_true _) hstep)⟩
  | tupleDelete filter =>
      exact ⟨rel, h.rewrites (tupleDelete_rewrites (W := fun _ => True) h
        (fun _ _ => ⟨(stamps_true _).1, trivial⟩) hstep).1⟩
  | vacuumRelation oldestXmin => exact ⟨rel, h.vacuumed (vacuumRelation_vacuumed h hstep)⟩
  | heapScan => exact absurd rfl hop

/-- The relation after a run of `tuple_insert`, `tuple_update`, `tuple_delete` and
`vacuum_relation`. -/
theorem reachable_sane {storage : σ} {wal : WAL} {rel : Relation} (hempty : rel.pages = [])
    {trace : List (Transition (Database σ) HeapOp)}
    (hrun : Run (HeapStep rel.relOid)
      ⟨registerRelation (SharedBufferCache.new storage) rel, wal⟩ trace db)
    (hops : ∀ tr ∈ trace, tr.label ≠ .heapScan) :
    ∃ rel', Sane (fun _ => True) rel.relOid rel' db :=
  (Run.invariant (fun db => ∃ rel', Sane (fun _ => True) rel.relOid rel' db)
    (fun _ op => op ≠ .heapScan) (fun _ _ _ h hop hstep => sane_step hop h hstep) hrun
    ⟨rel, sane_registered _ storage wal rel hempty⟩ hops).1

omit [LawfulStorage σ] in
theorem slowScan_shown {rel : Relation} (h : Sane (fun _ => True) relOid rel db) :
    ∃ rows, slowScan relOid none db = .ok rows db ∧
      (rows.map Prod.snd : Multiset (List String)) =
        shownRows maxSnapshot rel.tupleDesc (versionsOn db.cache.disk.storage rel.pages) :=
  ⟨_, slowScan_sane h, scanRows_versions h.coded⟩

/-- A completed `tuple_update` on well-formed pages. -/
theorem tupleUpdate_conserves_iff {rel : Relation} (hrel : db.cache.rels.lookup relOid = some rel)
    (hnodup : rel.pages.Nodup)
    (hcoded : ∀ q ∈ rel.pages, CodedAt (fun _ => True) db.cache.disk.storage q) {columnIdx : Nat}
    (hwidth : ∀ tup ∈ versionsOn db.cache.disk.storage rel.pages, columnIdx < width tup)
    {value : String} (hvalue : 0 ∉ asBytes value) {filter : Option Filter} {count : Nat}
    (hupdate : tupleUpdate relOid columnIdx (asBytes value) filter db = .ok count db') :
    (shownRows maxSnapshot rel.tupleDesc (versionsOn db'.cache.disk.storage rel.pages) =
          (shownRows maxSnapshot rel.tupleDesc
            (versionsOn db.cache.disk.storage rel.pages)).map (updatedRow columnIdx value filter) ∧
        count = ((shownRows maxSnapshot rel.tupleDesc
          (versionsOn db.cache.disk.storage rel.pages)).filter fun row =>
            writeFilter row filter = true).card) ↔
      ∀ change ∈ changesOn (updateChanges rel.tupleDesc columnIdx (asBytes value) filter)
        db.cache.disk.storage rel.pages db.wal.currentXid,
        Conserved rel.tupleDesc columnIdx value change := by
  obtain ⟨hcount, hchanged⟩ := tupleUpdate_changed hrel hnodup hcoded hupdate
  rw [hcount]
  have holds : ((changesOn (updateChanges rel.tupleDesc columnIdx (asBytes value) filter)
        db.cache.disk.storage rel.pages db.wal.currentXid).map Change.old : Multiset Tuple) =
      (versionsOn db.cache.disk.storage rel.pages).filter (Matches rel.tupleDesc filter) :=
    changesOn_olds hcoded hwidth db.wal.currentXid
  refine exchanged_conserves_iff hchanged.exchanged holds ?_
  intro change hchange
  obtain ⟨page, xid, hmem⟩ := mem_changesOn hchange
  have hdata := updateChanges_data hmem
  have hversion : change.old ∈ versionsOn db.cache.disk.storage rel.pages := by
    have hold : change.old ∈ (versionsOn db.cache.disk.storage rel.pages).filter
        (Matches rel.tupleDesc filter) := by
      rw [← holds]
      exact Multiset.mem_coe.mpr (List.mem_map_of_mem hchange)
    exact (Multiset.mem_filter.mp hold).1
  obtain ⟨newData, hbuilt, hrow⟩ := decodeTupleValues_updated (hwidth _ hversion) hvalue
    rel.tupleDesc change.xid
  rw [hbuilt] at hdata
  cases hdata
  exact hrow

end Reachable

section FirstRow

/-- The table after the insert of its first row, `a`. -/
structure FirstRow (db : Database EphemeralStorage) (rel : Relation) : Prop where
  inserted : tupleInsert ⟨1⟩ (["a"].map asBytes) (freshDatabase [emptyTable]) = .ok () db
  registered : db.cache.rels.lookup ⟨1⟩ = some rel
  desc_eq : rel.tupleDesc = textColumn
  pages_eq : rel.pages = [⟨1⟩]
  read_eq : readPage db.cache.disk.storage ⟨1⟩ = .ok (image (oneVersion (version 1 0 97)))
  ready : Ready db.wal (0 + 1)
  currentXid_eq : db.wal.currentXid = 2

theorem firstRow : ∃ db rel, FirstRow db rel := by
  have hwal : Ready (freshDatabase [emptyTable]).wal (0 + 1 + 1) :=
    ready_new (by decide) (by decide)
  have htuple : newTuple (["a"].map asBytes) (freshDatabase [emptyTable]).wal.currentXid =
      version 1 0 97 := by
    rw [List.map_cons, List.map_nil, asBytes_a]
    rfl
  have hencoded : serializeTuple (newTuple (["a"].map asBytes)
      (freshDatabase [emptyTable]).wal.currentXid) = .ok (encodeTuple (version 1 0 97)) := by
    rw [htuple]
    exact serializeTuple_ok (version_encodable 1 0 97)
  have hnul : NulFree ["a"] := by
    intro value hvalue
    rw [List.mem_singleton.mp hvalue, asBytes_a]
    decide
  have hrow : Encodes textColumn (encodeTuple (version 1 0 97)) (fitRow 1 ["a"]) :=
    encodes_newTuple hnul (by decide) (by decide) hencoded
  have hlength := version_length 1 0 97
  obtain ⟨db, hinsert, hfilled, hready, hxid⟩ :=
    filled_insert_first filled_freshDatabase hencoded (by omega) hrow hwal
  obtain ⟨rel, hrel, hdesc, hpages⟩ := hfilled.registered
  have hheld : Held db.cache.disk.storage (pid 0)
      (appended (stored HeapPage.new) (encodeTuple (version 1 0 97))) := by
    cases hfilled.held with
    | cons hpage _ => exact hpage
  have hpage : appended (stored HeapPage.new) (encodeTuple (version 1 0 97)) =
      oneVersion (version 1 0 97) := by decide
  refine ⟨db, rel, hinsert, hrel, hdesc, hpages, ?_, hready, hxid⟩
  rw [← hpage]
  exact hheld.read_eq

variable {db : Database EphemeralStorage} {rel : Relation}

theorem FirstRow.run (h : FirstRow db rel) :
    Run (HeapStep ⟨1⟩)
      ⟨registerRelation (SharedBufferCache.new EphemeralStorage.new) emptyTable, WAL.new 8192⟩
      [⟨freshDatabase [emptyTable], .tupleInsert (["a"].map asBytes), db⟩] db := by
  have hstep : (tupleInsert ⟨1⟩ (["a"].map asBytes) (freshDatabase [emptyTable])).state? =
      some db := by
    rw [h.inserted]
    rfl
  exact Run.cons hstep (Run.nil db)

theorem FirstRow.ops (db : Database EphemeralStorage) :
    ∀ tr ∈ [(⟨freshDatabase [emptyTable], .tupleInsert (["a"].map asBytes), db⟩ :
      Transition (Database EphemeralStorage) HeapOp)], tr.label ≠ .heapScan := by
  intro tr htr
  rw [List.mem_singleton.mp htr]
  exact nofun

theorem FirstRow.sane (h : FirstRow db rel) : Sane (fun _ => True) ⟨1⟩ rel db := by
  have hempty : emptyTable.pages = [] := rfl
  obtain ⟨rel', hsane⟩ := reachable_sane hempty h.run (FirstRow.ops db)
  obtain rfl : rel' = rel := Option.some.inj (hsane.registered.symm.trans h.registered)
  exact hsane

theorem FirstRow.versions_eq (h : FirstRow db rel) :
    versionsOn db.cache.disk.storage rel.pages = {version 1 0 97} := by
  have hdecoded : deserializeTuple (encodeTuple (version 1 0 97)) = .ok (version 1 0 97) :=
    LawfulBincode.deserialize_serialize (serializeTuple_ok (version_encodable 1 0 97))
  have hversions : versions (oneVersion (version 1 0 97)) = {version 1 0 97} := by
    have hcontents : contents (oneVersion (version 1 0 97)) = [encodeTuple (version 1 0 97)] := rfl
    rw [versions, hcontents, decodable, Multiset.filterMap_coe, List.filterMap_cons, hdecoded]
    rfl
  rw [h.pages_eq, versionsOn_cons h.read_eq (oneVersion_holds 1 0 97).wellFormed, hversions]
  rfl

theorem FirstRow.width_pos (h : FirstRow db rel) :
    ∀ tup ∈ versionsOn db.cache.disk.storage rel.pages, 0 < width tup := by
  intro tup htup
  rw [h.versions_eq, Multiset.mem_singleton] at htup
  rw [htup]
  decide

theorem FirstRow.changes_eq (h : FirstRow db rel) {newValue : Bytes}
    (hlen : newValue.length < 2 ^ 64) :
    changesOn (updateChanges rel.tupleDesc 0 newValue none) db.cache.disk.storage rel.pages
        db.wal.currentXid =
      [⟨version 1 0 97, newValue, 2, updateFate 8111 0 (50 + newValue.length)⟩] := by
  rw [h.desc_eq, h.pages_eq, h.currentXid_eq]
  exact oneVersion_changes 1 0 (by decide) h.read_eq 2 hlen

theorem FirstRow.update (h : FirstRow db rel) {newValue : Bytes} (hlen : newValue.length ≤ 8079) :
    ∃ db', tupleUpdate ⟨1⟩ 0 newValue none db = .ok 1 db' :=
  oneVersion_update 1 0 (by decide) h.registered h.desc_eq h.pages_eq h.read_eq hlen h.ready

/-- A value that fits an empty page, but not beside a row of one byte. -/
def wideValue : String := String.ofList (List.replicate 8070 'b')

end FirstRow

end PostgressRs.Executor.UpdateConservation
