import Mathlib.Data.List.Induction
import PostgressRs.Btree.BrinPruning

/-!
Null values in a block range index: whether a search reads a range depends on all values that
were ever inserted into it.
-/

namespace PostgressRs.Btree.BrinNulls

open PostgressRs.Btree.BrinIndex
open PostgressRs.Btree.BrinIndex.BrinIndex
open PostgressRs.Btree.BrinPruning
open PostgressRs.Lib.Buckets
open PostgressRs.Types

section Summaries

/-- The summary after the insertions of some values. -/
def summarize (range : BlockRangeSummary) (values : List String) : BlockRangeSummary :=
  values.foldl (fun range value => range.note value) range

/-- The bounds of a range are the least and the greatest of its values, nulls left out. -/
inductive Bounds (values : List String) (range : BlockRangeSummary) : Prop
  | missing (hmin : range.minValue = none) (hmax : range.maxValue = none)
      (hnulls : ∀ value ∈ values, IsNull value)
  | present {min max : String} (hmin : range.minValue = some min)
      (hmax : range.maxValue = some max) (minMem : min ∈ values) (maxMem : max ∈ values)
      (minValid : ¬IsNull min) (maxValid : ¬IsNull max)
      (hbetween : ∀ value ∈ values, ¬IsNull value → min ≤ value ∧ value ≤ max)

variable {values : List String} {range : BlockRangeSummary} {v : String}

@[simp] theorem widenMin_nullCount (value : String) (range : BlockRangeSummary) :
    (range.widenMin value).nullCount = range.nullCount := by
  unfold BlockRangeSummary.widenMin
  split
  · rfl
  · split
    · rfl
    · rfl

@[simp] theorem widenMax_nullCount (value : String) (range : BlockRangeSummary) :
    (range.widenMax value).nullCount = range.nullCount := by
  unfold BlockRangeSummary.widenMax
  split
  · rfl
  · split
    · rfl
    · rfl

theorem note_null (h : IsNull v) (range : BlockRangeSummary) :
    range.note v = { range with nullCount := range.nullCount + 1 } := by
  rw [BlockRangeSummary.note, if_pos h]

theorem note_value (h : ¬IsNull v) (range : BlockRangeSummary) :
    (range.note v).minValue = ((range.widenMin v).widenMax v).minValue ∧
      (range.note v).maxValue = ((range.widenMin v).widenMax v).maxValue ∧
      (range.note v).nullCount = range.nullCount := by
  rw [BlockRangeSummary.note, if_neg h]
  exact ⟨rfl, rfl, by rw [widenMax_nullCount, widenMin_nullCount]⟩

/-- The first value is both bounds. -/
theorem widen_missing (hmin : range.minValue = none) :
    ((range.widenMin v).widenMax v).minValue = some v ∧
      ((range.widenMin v).widenMax v).maxValue = some v := by
  have hwidened : range.widenMin v = { range with minValue := some v, maxValue := some v } := by
    rw [BlockRangeSummary.widenMin, hmin]
  rw [hwidened, BlockRangeSummary.widenMax]
  show (ite _ _ _ : BlockRangeSummary).minValue = _ ∧ (ite _ _ _ : BlockRangeSummary).maxValue = _
  rw [if_neg (lt_irrefl v)]
  exact ⟨rfl, rfl⟩

theorem widen_present {a b : String} (hmin : range.minValue = some a)
    (hmax : range.maxValue = some b) :
    ((range.widenMin v).widenMax v).minValue = some (min a v) ∧
      ((range.widenMin v).widenMax v).maxValue = some (max b v) := by
  have hless : (range.widenMin v).minValue = some (min a v) ∧
      (range.widenMin v).maxValue = some b := by
    rw [BlockRangeSummary.widenMin, hmin]
    show (ite _ _ _ : BlockRangeSummary).minValue = _ ∧ (ite _ _ _ : BlockRangeSummary).maxValue = _
    split
    · exact ⟨congrArg some (min_eq_right ‹v < a›.le).symm, hmax⟩
    · exact ⟨hmin.trans (congrArg some (min_eq_left (not_lt.mp ‹¬v < a›)).symm), hmax⟩
  refine ⟨(widenMax_minValue v _).trans hless.1, ?_⟩
  rw [BlockRangeSummary.widenMax, hless.2]
  show (ite _ _ _ : BlockRangeSummary).maxValue = _
  split
  · exact congrArg some (max_eq_right ‹b < v›.le).symm
  · exact hless.2.trans (congrArg some (max_eq_left (not_lt.mp ‹¬b < v›)).symm)

theorem Bounds.note (h : Bounds values range) (value : String) :
    Bounds (values ++ [value]) (range.note value) := by
  by_cases hnull : IsNull value
  · rw [note_null hnull]
    cases h with
    | missing hmin hmax hnulls =>
        refine .missing hmin hmax ?_
        intro other hother
        rcases List.mem_append.mp hother with hother | hother
        · exact hnulls other hother
        · rwa [List.mem_singleton.mp hother]
    | present hmin hmax minMem maxMem minValid maxValid hbetween =>
        refine .present hmin hmax (List.mem_append_left _ minMem) (List.mem_append_left _ maxMem)
          minValid maxValid ?_
        intro other hother hvalid
        rcases List.mem_append.mp hother with hother | hother
        · exact hbetween other hother hvalid
        · exact absurd (List.mem_singleton.mp hother ▸ hnull) hvalid
  · obtain ⟨hminNoted, hmaxNoted, -⟩ := note_value hnull range
    have hlast : value ∈ values ++ [value] := List.mem_append_right _ (List.mem_singleton.mpr rfl)
    cases h with
    | missing hmin hmax hnulls =>
        obtain ⟨hfirst, hsecond⟩ := @widen_missing range value hmin
        refine .present (hminNoted.trans hfirst) (hmaxNoted.trans hsecond) hlast hlast hnull hnull
          ?_
        intro other hother hvalid
        rcases List.mem_append.mp hother with hother | hother
        · exact absurd (hnulls other hother) hvalid
        · rw [List.mem_singleton.mp hother]
          exact ⟨le_rfl, le_rfl⟩
    | @present a b hmin hmax minMem maxMem minValid maxValid hbetween =>
        obtain ⟨hfirst, hsecond⟩ := @widen_present range value a b hmin hmax
        have hminMem : min a value ∈ values ++ [value] := by
          rcases min_choice a value with heq | heq
          · exact heq.symm ▸ List.mem_append_left _ minMem
          · exact heq.symm ▸ hlast
        have hmaxMem : max b value ∈ values ++ [value] := by
          rcases max_choice b value with heq | heq
          · exact heq.symm ▸ List.mem_append_left _ maxMem
          · exact heq.symm ▸ hlast
        have hminValid : ¬IsNull (min a value) := by
          rcases min_choice a value with heq | heq
          · rwa [heq]
          · rwa [heq]
        have hmaxValid : ¬IsNull (max b value) := by
          rcases max_choice b value with heq | heq
          · rwa [heq]
          · rwa [heq]
        refine .present (hminNoted.trans hfirst) (hmaxNoted.trans hsecond) hminMem hmaxMem
          hminValid hmaxValid ?_
        intro other hother hvalid
        rcases List.mem_append.mp hother with hother | hother
        · obtain ⟨hle, hge⟩ := hbetween other hother hvalid
          exact ⟨min_le_of_left_le hle, le_max_of_le_left hge⟩
        · rw [List.mem_singleton.mp hother]
          exact ⟨min_le_right a value, le_max_right b value⟩

theorem summarize_append (range : BlockRangeSummary) (values : List String) (value : String) :
    summarize range (values ++ [value]) = (summarize range values).note value := by
  rw [summarize, List.foldl_append]
  rfl

theorem bounds_summarize (pages : UInt32) (count : Nat) (values : List String) :
    Bounds values (summarize (emptyRange pages count) values) := by
  induction values using List.reverseRecOn with
  | nil => exact .missing rfl rfl fun value hvalue => absurd hvalue List.not_mem_nil
  | append_singleton values value ih =>
      rw [summarize_append]
      exact ih.note value

theorem nullCount_summarize (pages : UInt32) (count : Nat) (values : List String) :
    (summarize (emptyRange pages count) values).nullCount =
      UInt32.ofNat (values.countP fun value => IsNull value) := by
  induction values using List.reverseRecOn with
  | nil => rfl
  | append_singleton values value ih =>
      rw [summarize_append, List.countP_append, List.countP_singleton]
      by_cases hnull : IsNull value
      · rw [note_null hnull, if_pos (decide_eq_true hnull), UInt32.ofNat_add, ← ih]
        rfl
      · rw [(note_value hnull _).2.2, if_neg (by rwa [decide_eq_true_iff]), Nat.add_zero, ih]

/-- What must have been inserted into a range for a null to be found there: values on both sides
of it or, if there are nulls only, a number of them that the counter of the range can tell from
none. -/
def Findable (values : List String) (null : String) : Prop :=
  (∃ a ∈ values, ∃ b ∈ values, ¬IsNull a ∧ ¬IsNull b ∧ a ≤ null ∧ null ≤ b) ∨
    (∀ value ∈ values, IsNull value) ∧ ¬2 ^ 32 ∣ values.length

instance (values : List String) (null : String) : Decidable (Findable values null) :=
  inferInstanceAs (Decidable (_ ∨ _))

theorem pos_ofNat_iff (n : Nat) : 0 < UInt32.ofNat n ↔ ¬2 ^ 32 ∣ n := by
  rw [UInt32.lt_iff_toNat_lt, UInt32.toNat_ofNat', Nat.dvd_iff_mod_eq_zero]
  exact Nat.pos_iff_ne_zero

theorem mightContain_iff {pages : UInt32} {count : Nat} (hv : IsNull v) :
    (summarize (emptyRange pages count) values).mightContain v ↔ Findable values v := by
  cases bounds_summarize pages count values with
  | missing hmin hmax hnulls =>
      have hall : values.countP (fun value => IsNull value) = values.length :=
        List.countP_eq_length.mpr fun value hvalue => decide_eq_true (hnulls value hvalue)
      rw [BlockRangeSummary.mightContain, hmin, hmax, nullCount_summarize, hall]
      show decide (_ ∧ _) = true ↔ _
      rw [decide_eq_true_iff, pos_ofNat_iff]
      constructor
      · rintro ⟨hcount, -⟩
        exact .inr ⟨hnulls, hcount⟩
      · rintro (⟨a, ha, -, -, hvalid, -⟩ | ⟨-, hcount⟩)
        · exact absurd (hnulls a ha) hvalid
        · exact ⟨hcount, hv⟩
  | @present a b hmin hmax minMem maxMem minValid maxValid hbetween =>
      rw [BlockRangeSummary.mightContain, hmin, hmax]
      show decide (_ ∧ _) = true ↔ _
      rw [decide_eq_true_iff]
      constructor
      · rintro ⟨hle, hge⟩
        exact .inl ⟨a, minMem, b, maxMem, minValid, maxValid, hle, hge⟩
      · rintro (⟨c, hc, d, hd, hcValid, hdValid, hle, hge⟩ | ⟨hnulls, -⟩)
        · exact ⟨(hbetween c hc hcValid).1.trans hle, hge.trans (hbetween d hd hdValid).2⟩
        · exact absurd (hnulls a minMem) minValid

end Summaries

section Runs

/-- The value that an operation inserts into the range of a key. -/
def BrinOp.valueAt (pages key : UInt32) : BrinOp → Option String
  | .insert blockId value _ => if blockId / pages = key then some value else none
  | .delete _ _ _ => none

def insertedAt (pages key : UInt32) (ops : List BrinOp) : List String :=
  ops.filterMap (BrinOp.valueAt pages key)

/-- The summaries of an index are those of all values that were ever inserted. -/
structure Traced (pages : UInt32) (ops : List BrinOp) (index : BrinIndex) : Prop where
  pagesPerRange : index.pagesPerRange = pages
  summary : ∀ (key : UInt32) range, index.ranges[key.toNat]? = some range →
    range = summarize (emptyRange pages key.toNat) (insertedAt pages key ops)
  missing : ∀ key : UInt32, index.ranges[key.toNat]? = none → insertedAt pages key ops = []

variable {pages : UInt32} {ops : List BrinOp} {index : BrinIndex}

theorem insertedAt_append (pages key : UInt32) (ops : List BrinOp) (op : BrinOp) :
    insertedAt pages key (ops ++ [op]) =
      insertedAt pages key ops ++ (BrinOp.valueAt pages key op).toList := by
  rw [insertedAt, List.filterMap_append]
  cases h : BrinOp.valueAt pages key op with
  | none => rw [List.filterMap_cons_none h]; rfl
  | some value => rw [List.filterMap_cons_some h]; rfl

theorem traced_new (pages : UInt32) : Traced pages [] (new.withPagesPerRange pages) where
  pagesPerRange := rfl
  summary _ _ h := by cases h
  missing _ _ := rfl

theorem getElem?_growRanges {pages : UInt32} {rangeIdx : Nat} (ranges : List BlockRangeSummary)
    (i : Nat) :
    (growRanges pages rangeIdx ranges)[i]? =
      if i < ranges.length then ranges[i]?
      else if i ≤ rangeIdx then some (emptyRange pages i) else none := by
  induction ranges using growRanges.induct pages rangeIdx with
  | case1 ranges hle ih =>
      rw [growRanges, if_pos hle, ih, List.length_append, List.length_singleton]
      rcases Nat.lt_trichotomy i ranges.length with hlt | rfl | hgt
      · rw [if_pos (Nat.lt_succ_of_lt hlt), if_pos hlt, List.getElem?_append_left hlt]
      · rw [if_pos (Nat.lt_succ_self _), if_neg (Nat.lt_irrefl _), if_pos hle,
          List.getElem?_append_right (Nat.le_refl _), Nat.sub_self]
        rfl
      · rw [if_neg (by omega : ¬i < ranges.length + 1), if_neg (by omega : ¬i < ranges.length)]
  | case2 ranges hlt =>
      rw [growRanges, if_neg hlt]
      split
      · rfl
      · rw [if_neg (by omega), List.getElem?_eq_none (by omega)]

theorem Traced.insert (h : Traced pages ops index) (blockId : UInt32) (value : String)
    (tid : BrinValue) (entries : List BrinEntry) :
    Traced pages (ops ++ [.insert blockId value tid])
      ((noted index (blockId / pages) value).setEntries (blockId / pages) entries) := by
  obtain rfl := h.pagesPerRange
  -- what the new ranges are, before the value is noted in one of them
  have hgrown : ∀ (key : UInt32) range,
      (growRanges index.pagesPerRange (blockId / index.pagesPerRange).toNat
        index.ranges)[key.toNat]? = some range →
      range = summarize (emptyRange index.pagesPerRange key.toNat)
        (insertedAt index.pagesPerRange key ops) := by
    intro key range hrange
    rw [getElem?_growRanges] at hrange
    split at hrange
    · exact h.summary key range hrange
    · split at hrange
      · rw [h.missing key (List.getElem?_eq_none (Nat.le_of_not_lt ‹_›))]
        exact (Option.some.inj hrange).symm
      · cases hrange
  constructor
  · rfl
  · intro key range hrange
    have hnoted : (noted index (blockId / index.pagesPerRange) value).ranges[key.toNat]? =
        some range := hrange
    rw [noted_ranges, Option.map_eq_some_iff] at hnoted
    obtain ⟨before, hbefore, rfl⟩ := hnoted
    rw [insertedAt_append, BrinOp.valueAt, hgrown key before hbefore]
    by_cases hkey : blockId / index.pagesPerRange = key
    · rw [if_pos (congrArg UInt32.toNat hkey), if_pos hkey, Option.toList_some,
        summarize_append]
    · rw [if_neg fun heq => hkey (UInt32.toNat_inj.mp heq), if_neg hkey, Option.toList_none,
        List.append_nil]
  · intro key hnone
    have hnoted : (noted index (blockId / index.pagesPerRange) value).ranges[key.toNat]? =
        none := hnone
    rw [noted_ranges, Option.map_eq_none_iff, getElem?_growRanges] at hnoted
    split at hnoted
    · rw [List.getElem?_eq_getElem ‹_›] at hnoted
      cases hnoted
    · have hbeyond : ¬key.toNat ≤ (blockId / index.pagesPerRange).toNat := by
        intro hle
        rw [if_pos hle] at hnoted
        cases hnoted
      have hkey : blockId / index.pagesPerRange ≠ key := by
        rintro rfl
        exact hbeyond (Nat.le_refl _)
      rw [insertedAt_append, BrinOp.valueAt, if_neg hkey, Option.toList_none, List.append_nil]
      exact h.missing key (List.getElem?_eq_none (Nat.le_of_not_lt ‹_›))

theorem Traced.delete (h : Traced pages ops index) (order : Iteration) (value : String)
    (tid : BrinValue) :
    Traced pages (ops ++ [.delete order value tid]) (index.delete order value tid).1 := by
  have hsame : ∀ key, insertedAt pages key (ops ++ [.delete order value tid]) =
      insertedAt pages key ops := by
    intro key
    rw [insertedAt_append, BrinOp.valueAt, Option.toList_none, List.append_nil]
  have hranges : (index.delete order value tid).1.ranges = index.ranges := by
    unfold BrinIndex.BrinIndex.delete
    split
    · rfl
    · rfl
  have hpages : (index.delete order value tid).1.pagesPerRange = index.pagesPerRange := by
    unfold BrinIndex.BrinIndex.delete
    split
    · rfl
    · rfl
  constructor
  · exact hpages.trans h.pagesPerRange
  · intro key range hrange
    rw [hsame]
    exact h.summary key range (hranges ▸ hrange)
  · intro key hnone
    rw [hsame]
    exact h.missing key (hranges ▸ hnone)

theorem Traced.step (h : Traced pages ops index) (hpages : pages ≠ 0) {op : BrinOp}
    {index' : BrinIndex} (hstep : step index op = some index') :
    Traced pages (ops ++ [op]) index' := by
  cases op with
  | insert blockId value tid =>
      obtain rfl := h.pagesPerRange
      rw [BrinPruning.step, insert_eq index hpages] at hstep
      obtain rfl := Option.some.inj hstep
      exact h.insert blockId value tid _
  | delete order value tid =>
      obtain rfl := Option.some.inj hstep
      exact h.delete order value tid

theorem Traced.run (h : Traced pages ops index) (hpages : pages ≠ 0) {more : List BrinOp}
    {index' : BrinIndex} (hrun : run index more = some index') :
    Traced pages (ops ++ more) index' := by
  induction more generalizing ops index with
  | nil =>
      obtain rfl := Option.some.inj hrun
      rwa [List.append_nil]
  | cons op more ih =>
      rw [BrinPruning.run, List.foldlM_cons, Option.bind_eq_bind, Option.bind_eq_some_iff] at hrun
      obtain ⟨next, hstep, hrest⟩ := hrun
      have hlast := ih (h.step hpages hstep) hrest
      rwa [List.append_assoc] at hlast

end Runs

section Lookups

variable {pages : UInt32} {ops : List BrinOp} {index : BrinIndex} {v : String}

/-- The ranges with a null are read exactly if it is findable in them. -/
theorem read_iff (h : Maintained pages ops index) (htraced : Traced pages ops index)
    (hv : IsNull v) :
    (∀ place ∈ index.ranges.zipIdx, ∀ entry ∈ bucket index place.2, decide (entry.1 = v) →
        place.1.mightContain v) ↔
      ∀ key, (∃ tid, (v, tid) ∈ index.entriesAt key) → Findable (insertedAt pages key ops) v := by
  constructor
  · rintro hread key ⟨tid, hentry⟩
    obtain ⟨range, hrange, -⟩ := h.covered key _ hentry
    have hplace : (range, key.toNat) ∈ index.ranges.zipIdx :=
      List.mem_zipIdx_iff_getElem?.mpr hrange
    have hbucket : (v, tid) ∈ bucket index key.toNat := by rwa [bucket_toNat]
    have hmight := hread _ hplace _ hbucket (decide_eq_true rfl)
    rw [htraced.summary key range hrange] at hmight
    exact (mightContain_iff hv).mp hmight
  · rintro hfindable ⟨range, i⟩ hplace ⟨value, tid⟩ hentry hvalue
    obtain rfl : value = v := of_decide_eq_true hvalue
    have hrange : index.ranges[i]? = some range := List.mem_zipIdx_iff_getElem?.mp hplace
    have hlt : i < 2 ^ 32 := (List.getElem?_eq_some_iff.mp hrange).1.trans_le h.count_le
    have hkey : (UInt32.ofNat i).toNat = i := toNat_ofNat_of_lt hlt
    rw [htraced.summary (UInt32.ofNat i) range (hkey.symm ▸ hrange)]
    exact (mightContain_iff hv).mpr (hfindable _ ⟨tid, hentry⟩)

theorem lookup_null_iff (h : Maintained pages ops index) (htraced : Traced pages ops index)
    (hv : IsNull v) :
    (index.lookup v : Multiset BrinValue) =
        ((remaining ops).filter fun entry => entry.1 = v).map Prod.snd ↔
      ∀ key, (∃ tid, (v, tid) ∈ index.entriesAt key) → Findable (insertedAt pages key ops) v := by
  have hlookup : index.lookup v =
      (hits index (·.mightContain v) fun value => value = v).map Prod.snd :=
    searchRanges_eq index _ _
  have hall : (hits index (·.mightContain v) fun value => value = v).length =
        ((stored index).filter fun entry => entry.1 = v).length ↔
      ∀ key, (∃ tid, (v, tid) ∈ index.entriesAt key) →
        Findable (insertedAt pages key ops) v := by
    rw [← contents_zipIdx, hits, length_search_eq_iff]
    exact read_iff h htraced hv
  rw [hlookup, ← h.stored_eq, Multiset.filter_coe, Multiset.map_coe, ← hall]
  constructor
  · intro heq
    have hcard := congrArg Multiset.card heq
    rwa [Multiset.coe_card, Multiset.coe_card, List.length_map, List.length_map] at hcard
  · intro hlength
    rw [hits_sublist.eq_of_length hlength]

theorem maintained_of_run (hpages : pages ≠ 0)
    (hrun : run (new.withPagesPerRange pages) ops = some index) : Maintained pages ops index := by
  obtain ⟨index', hrun', h⟩ := (maintained_new pages).run hpages ops
  obtain rfl := Option.some.inj (hrun.symm.trans hrun')
  rwa [List.nil_append] at h

end Lookups

end PostgressRs.Btree.BrinNulls
