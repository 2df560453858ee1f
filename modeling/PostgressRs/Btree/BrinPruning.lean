import Mathlib.Data.Multiset.Filter
import PostgressRs.Btree.BrinIndex
import PostgressRs.Lib.Buckets

/-!
What a block range index skips: over any insertions and deletions the summary of a range covers
the values that are left in it, so that a search finds them without reading every range.
-/

namespace PostgressRs.Btree.BrinPruning

open PostgressRs.Btree.BrinIndex
open PostgressRs.Btree.BrinIndex.BrinIndex
open PostgressRs.Lib.Buckets
open PostgressRs.Types

section Summaries

/-- The value lies between the least and the greatest value of the range. -/
def Covers (range : BlockRangeSummary) (value : String) : Prop :=
  ∃ min max, range.minValue = some min ∧ range.maxValue = some max ∧ min ≤ value ∧ value ≤ max

variable {range : BlockRangeSummary} {v w : String}

theorem widenMin_le (value : String) (range : BlockRangeSummary) :
    ∃ min, (range.widenMin value).minValue = some min ∧ min ≤ value := by
  unfold BlockRangeSummary.widenMin
  split
  · exact ⟨value, rfl, le_rfl⟩
  · split
    · exact ⟨value, rfl, le_rfl⟩
    · exact ⟨_, ‹_›, not_lt.mp ‹_›⟩

theorem le_widenMax (value : String) (range : BlockRangeSummary) :
    ∃ max, (range.widenMax value).maxValue = some max ∧ value ≤ max := by
  unfold BlockRangeSummary.widenMax
  split
  · exact ⟨value, rfl, le_rfl⟩
  · split
    · exact ⟨value, rfl, le_rfl⟩
    · exact ⟨_, ‹_›, not_lt.mp ‹_›⟩

@[simp] theorem widenMax_minValue (value : String) (range : BlockRangeSummary) :
    (range.widenMax value).minValue = range.minValue := by
  unfold BlockRangeSummary.widenMax
  split
  · rfl
  · split
    · rfl
    · rfl

theorem Covers.widenMin (h : Covers range w) (value : String) :
    Covers (range.widenMin value) w := by
  obtain ⟨min, max, hmin, hmax, hle, hge⟩ := h
  unfold BlockRangeSummary.widenMin
  rw [hmin]
  show Covers (ite _ _ _) w
  split
  · exact ⟨value, max, rfl, hmax, ‹value < min›.le.trans hle, hge⟩
  · exact ⟨min, max, hmin, hmax, hle, hge⟩

theorem Covers.widenMax (h : Covers range w) (value : String) :
    Covers (range.widenMax value) w := by
  obtain ⟨min, max, hmin, hmax, hle, hge⟩ := h
  unfold BlockRangeSummary.widenMax
  rw [hmax]
  show Covers (ite _ _ _) w
  split
  · exact ⟨min, value, hmin, rfl, hle, hge.trans ‹max < value›.le⟩
  · exact ⟨min, max, hmin, hmax, hle, hge⟩

/-- Summaries are only ever widened. -/
theorem Covers.note (h : Covers range w) (value : String) : Covers (range.note value) w := by
  unfold BlockRangeSummary.note
  split
  · exact h
  · exact (h.widenMin value).widenMax value

theorem covers_note_self (h : ¬IsNull v) : Covers (range.note v) v := by
  obtain ⟨min, hmin, hle⟩ := widenMin_le v range
  obtain ⟨max, hmax, hge⟩ := le_widenMax v (range.widenMin v)
  rw [BlockRangeSummary.note, if_neg h]
  exact ⟨min, max, (widenMax_minValue v _).trans hmin, hmax, hle, hge⟩

theorem Covers.mightContain (h : Covers range v) : range.mightContain v := by
  obtain ⟨min, max, hmin, hmax, hle, hge⟩ := h
  rw [BlockRangeSummary.mightContain, hmin, hmax]
  exact decide_eq_true ⟨hle, hge⟩

theorem Covers.mightOverlap (h : Covers range v) {a b : String} (ha : a ≤ v) (hb : v ≤ b) :
    range.mightOverlap a b := by
  obtain ⟨min, max, hmin, hmax, hle, hge⟩ := h
  rw [BlockRangeSummary.mightOverlap, hmin, hmax]
  exact decide_eq_true ⟨hle.trans hb, ha.trans hge⟩

end Summaries

section Ranges

/-- The blocks of the range at a place. -/
def Placed (pages : UInt32) (i : Nat) (range : BlockRangeSummary) : Prop :=
  range.blockStart = UInt32.ofNat i * pages ∧ range.blockEnd = (UInt32.ofNat i + 1) * pages - 1

section Placing

variable {pages : UInt32} {i : Nat} {range : BlockRangeSummary}

theorem Placed.widenMin (h : Placed pages i range) (value : String) :
    Placed pages i (range.widenMin value) := by
  unfold BlockRangeSummary.widenMin
  split
  · exact h
  · split
    · exact h
    · exact h

theorem Placed.widenMax (h : Placed pages i range) (value : String) :
    Placed pages i (range.widenMax value) := by
  unfold BlockRangeSummary.widenMax
  split
  · exact h
  · split
    · exact h
    · exact h

theorem Placed.note (h : Placed pages i range) (value : String) :
    Placed pages i (range.note value) := by
  unfold BlockRangeSummary.note
  split
  · exact h
  · exact (h.widenMin value).widenMax value

end Placing

theorem length_growRanges (pages : UInt32) (rangeIdx : Nat) (ranges : List BlockRangeSummary) :
    (growRanges pages rangeIdx ranges).length = max ranges.length (rangeIdx + 1) := by
  induction ranges using growRanges.induct pages rangeIdx with
  | case1 ranges hle ih =>
      rw [growRanges, if_pos hle, ih, List.length_append, List.length_singleton]
      omega
  | case2 ranges hlt =>
      rw [growRanges, if_neg hlt]
      omega

theorem prefix_growRanges (pages : UInt32) (rangeIdx : Nat) (ranges : List BlockRangeSummary) :
    ranges <+: growRanges pages rangeIdx ranges := by
  induction ranges using growRanges.induct pages rangeIdx with
  | case1 ranges hle ih =>
      rw [growRanges, if_pos hle]
      exact (List.prefix_append ranges _).trans ih
  | case2 ranges hlt =>
      have hsame : growRanges pages rangeIdx ranges = ranges := by
        rw [growRanges, if_neg hlt]
      exact hsame.symm ▸ List.prefix_refl ranges

theorem placed_growRanges {pages : UInt32} (rangeIdx : Nat) {ranges : List BlockRangeSummary}
    (h : ∀ i range, ranges[i]? = some range → Placed pages i range) :
    ∀ i range, (growRanges pages rangeIdx ranges)[i]? = some range → Placed pages i range := by
  induction ranges using growRanges.induct pages rangeIdx with
  | case1 ranges hle ih =>
      rw [growRanges, if_pos hle]
      apply ih
      intro i range hi
      rcases Nat.lt_or_ge i ranges.length with hlt | hge
      · rw [List.getElem?_append_left hlt] at hi
        exact h i range hi
      · rw [List.getElem?_append_right hge, List.getElem?_singleton] at hi
        split at hi
        · obtain rfl : i = ranges.length := by omega
          cases hi
          exact ⟨rfl, rfl⟩
        · cases hi
  | case2 ranges hlt =>
      rw [growRanges, if_neg hlt]
      exact h

end Ranges

section Runs

inductive BrinOp where
  | insert (blockId : UInt32) (value : String) (tid : BrinValue)
  | delete (order : Iteration) (value : String) (tid : BrinValue)

def step (index : BrinIndex) : BrinOp → Option BrinIndex
  | .insert blockId value tid => index.insert blockId value tid
  | .delete order value tid => some (index.delete order value tid).1

def run (index : BrinIndex) (ops : List BrinOp) : Option BrinIndex := ops.foldlM step index

/-- What an operation means for the entries that there are. -/
def BrinOp.apply (entries : Multiset BrinEntry) : BrinOp → Multiset BrinEntry
  | .insert _ value tid => (value, tid) ::ₘ entries
  | .delete _ value tid => entries.erase (value, tid)

def remaining (ops : List BrinOp) : Multiset BrinEntry := ops.foldl BrinOp.apply 0

theorem remaining_append (ops : List BrinOp) (op : BrinOp) :
    remaining (ops ++ [op]) = op.apply (remaining ops) := by
  rw [remaining, List.foldl_append]
  rfl

/-- The entries of a range by its place. -/
def bucket (index : BrinIndex) (i : Nat) : List BrinEntry := index.entriesAt (UInt32.ofNat i)

def stored (index : BrinIndex) : List BrinEntry :=
  contents (bucket index) (List.range index.ranges.length)

/-- An index that operations lead to. -/
structure Maintained (pages : UInt32) (ops : List BrinOp) (index : BrinIndex) : Prop where
  pagesPerRange : index.pagesPerRange = pages
  count_le : index.ranges.length ≤ 2 ^ 32
  placed : ∀ i range, index.ranges[i]? = some range → Placed pages i range
  covered : ∀ key, ∀ entry ∈ index.entriesAt key, ∃ range,
    index.ranges[key.toNat]? = some range ∧ (¬IsNull entry.1 → Covers range entry.1)
  inserted : ∀ key, ∀ entry ∈ index.entriesAt key, ∃ blockId,
    .insert blockId entry.1 entry.2 ∈ ops ∧ blockId / pages = key
  stored_eq : (stored index : Multiset BrinEntry) = remaining ops

@[simp] theorem entriesAt_setEntries_self (index : BrinIndex) (key : UInt32)
    (entries : List BrinEntry) : (index.setEntries key entries).entriesAt key = entries := by
  rw [entriesAt, setEntries, AList.lookup_insert]
  rfl

theorem entriesAt_setEntries_of_ne (index : BrinIndex) {key key' : UInt32} (h : key' ≠ key)
    (entries : List BrinEntry) :
    (index.setEntries key entries).entriesAt key' = index.entriesAt key' := by
  rw [entriesAt, setEntries, AList.lookup_insert_ne h]
  rfl

theorem toNat_ofNat_of_lt {n : Nat} (h : n < 2 ^ 32) : (UInt32.ofNat n).toNat = n := by
  rw [UInt32.toNat_ofNat']
  exact Nat.mod_eq_of_lt h

theorem maintained_new (pages : UInt32) : Maintained pages [] (new.withPagesPerRange pages) where
  pagesPerRange := rfl
  count_le := Nat.zero_le _
  placed _ _ h := by cases h
  covered _ _ h := by cases h
  inserted _ _ h := by cases h
  stored_eq := rfl

variable {pages : UInt32} {ops : List BrinOp} {index : BrinIndex}

/-- Ranges that have entries are there. -/
theorem Maintained.bucket_eq_nil (h : Maintained pages ops index) {i : Nat}
    (hge : index.ranges.length ≤ i) (hlt : i < 2 ^ 32) : bucket index i = [] := by
  rw [List.eq_nil_iff_forall_not_mem]
  intro entry hentry
  obtain ⟨range, hrange, -⟩ := h.covered _ entry hentry
  rw [toNat_ofNat_of_lt hlt, List.getElem?_eq_none hge] at hrange
  cases hrange

/-- Places that have no range yet hold nothing. -/
theorem Maintained.contents_range (h : Maintained pages ops index) {count : Nat}
    (hle : index.ranges.length ≤ count) (hcount : count ≤ 2 ^ 32) :
    contents (bucket index) (List.range count) = stored index := by
  obtain ⟨more, rfl⟩ := Nat.exists_eq_add_of_le hle
  rw [List.range_add]
  apply contents_append_of_empty
  intro i hi
  obtain ⟨j, hj, rfl⟩ := List.mem_map.mp hi
  rw [List.mem_range] at hj
  exact h.bucket_eq_nil (by omega) (by omega)

/-- Entries of one range are replaced by more or fewer. -/
theorem bucket_setEntries_of_ne (index : BrinIndex) {key : UInt32} {entries : List BrinEntry}
    {j count : Nat} (hcount : count ≤ 2 ^ 32) (hj : j ∈ List.range count) (hne : j ≠ key.toNat) :
    bucket (index.setEntries key entries) j = bucket index j := by
  apply entriesAt_setEntries_of_ne
  rintro rfl
  rw [List.mem_range] at hj
  exact hne (toNat_ofNat_of_lt (by omega)).symm

theorem bucket_toNat (index : BrinIndex) (key : UInt32) :
    bucket index key.toNat = index.entriesAt key := by
  rw [bucket, UInt32.ofNat_toNat]

/-- The ranges after an insertion, before its entry is there. -/
def noted (index : BrinIndex) (key : UInt32) (value : String) : BrinIndex :=
  { index with
    ranges := (growRanges index.pagesPerRange key.toNat index.ranges).modify key.toNat
      (BlockRangeSummary.note value) }

theorem insert_eq (index : BrinIndex) (h : index.pagesPerRange ≠ 0) (blockId : UInt32)
    (value : String) (tid : BrinValue) :
    index.insert blockId value tid =
      some ((noted index (blockId / index.pagesPerRange) value).setEntries
        (blockId / index.pagesPerRange)
        (index.entriesAt (blockId / index.pagesPerRange) ++ [(value, tid)])) := by
  simp only [BrinIndex.BrinIndex.insert, if_neg h, UInt32.ofNat_toNat]
  rfl

theorem length_noted (index : BrinIndex) (key : UInt32) (value : String) :
    (noted index key value).ranges.length = max index.ranges.length (key.toNat + 1) := by
  rw [noted, List.length_modify, length_growRanges]

theorem noted_ranges (index : BrinIndex) (key : UInt32) (value : String) (i : Nat) :
    (noted index key value).ranges[i]? =
      (growRanges index.pagesPerRange key.toNat index.ranges)[i]?.map
        fun range => if key.toNat = i then range.note value else range := by
  rw [noted, List.getElem?_modify]
  rfl

/-- The range that the new entry belongs to. -/
theorem exists_noted (index : BrinIndex) (key : UInt32) (value : String) :
    ∃ range, (noted index key value).ranges[key.toNat]? = some range ∧
      (¬IsNull value → Covers range value) := by
  have hlt : key.toNat < (growRanges index.pagesPerRange key.toNat index.ranges).length := by
    rw [length_growRanges]
    omega
  rw [noted_ranges, List.getElem?_eq_getElem hlt]
  refine ⟨_, rfl, ?_⟩
  intro hvalue
  show Covers (ite _ _ _) value
  rw [if_pos rfl]
  exact covers_note_self hvalue

theorem Maintained.noted (h : Maintained pages ops index) (key : UInt32) (value : String) :
    Maintained pages ops (noted index key value) where
  pagesPerRange := h.pagesPerRange
  count_le := by
    have hkey : key.toNat < 2 ^ 32 := key.toNat_lt
    have hcount := h.count_le
    rw [length_noted]
    omega
  placed i range hrange := by
    rw [noted_ranges, Option.map_eq_some_iff] at hrange
    obtain ⟨before, hbefore, rfl⟩ := hrange
    rw [h.pagesPerRange] at hbefore
    have hplaced := placed_growRanges key.toNat h.placed i before hbefore
    split
    · exact hplaced.note value
    · exact hplaced
  covered key' entry hentry := by
    obtain ⟨range, hrange, hcovers⟩ := h.covered key' entry hentry
    have hgrown : (growRanges index.pagesPerRange key.toNat index.ranges)[key'.toNat]? =
        some range := by
      obtain ⟨more, hmore⟩ := prefix_growRanges index.pagesPerRange key.toNat index.ranges
      rw [← hmore, List.getElem?_append_left (List.getElem?_eq_some_iff.mp hrange).1, hrange]
    rw [noted_ranges, hgrown]
    refine ⟨_, rfl, ?_⟩
    intro hvalue
    split
    · exact (hcovers hvalue).note value
    · exact hcovers hvalue
  inserted := h.inserted
  stored_eq := by
    have hcount : max index.ranges.length (key.toNat + 1) ≤ 2 ^ 32 := by
      have hkey : key.toNat < 2 ^ 32 := key.toNat_lt
      exact max_le h.count_le hkey
    rw [← h.stored_eq, ← h.contents_range (le_max_left _ (key.toNat + 1)) hcount, stored,
      length_noted]
    rfl

theorem Maintained.add (h : Maintained pages ops index) {key blockId : UInt32} {value : String}
    {tid : BrinValue} (hkey : blockId / pages = key)
    (hrange : ∃ range, index.ranges[key.toNat]? = some range ∧
      (¬IsNull value → Covers range value)) :
    Maintained pages (ops ++ [.insert blockId value tid])
      (index.setEntries key (index.entriesAt key ++ [(value, tid)])) where
  pagesPerRange := h.pagesPerRange
  count_le := h.count_le
  placed := h.placed
  covered key' entry hentry := by
    rcases eq_or_ne key' key with rfl | hne
    · rw [entriesAt_setEntries_self, List.mem_append, List.mem_singleton] at hentry
      rcases hentry with hentry | rfl
      · exact h.covered key' entry hentry
      · exact hrange
    · rw [entriesAt_setEntries_of_ne index hne] at hentry
      exact h.covered key' entry hentry
  inserted key' entry hentry := by
    have hold : entry ∈ index.entriesAt key' → ∃ blockId',
        .insert blockId' entry.1 entry.2 ∈ ops ++ [.insert blockId value tid] ∧
          blockId' / pages = key' := by
      intro hmem
      obtain ⟨blockId', hop, hblock⟩ := h.inserted key' entry hmem
      exact ⟨blockId', List.mem_append_left _ hop, hblock⟩
    rcases eq_or_ne key' key with rfl | hne
    · rw [entriesAt_setEntries_self, List.mem_append, List.mem_singleton] at hentry
      rcases hentry with hentry | rfl
      · exact hold hentry
      · exact ⟨blockId, List.mem_append_right _ (List.mem_singleton.mpr rfl), hkey⟩
    · rw [entriesAt_setEntries_of_ne index hne] at hentry
      exact hold hentry
  stored_eq := by
    obtain ⟨range, hsome, -⟩ := hrange
    have hmem : key.toNat ∈ List.range index.ranges.length :=
      List.mem_range.mpr (List.getElem?_eq_some_iff.mp hsome).1
    rw [remaining_append, ← h.stored_eq]
    refine Multiset.coe_eq_coe.mpr (contents_cons List.nodup_range hmem ?_ ?_)
    · rw [bucket_toNat, bucket_toNat, entriesAt_setEntries_self]
      exact List.perm_append_singleton _ _
    · exact fun j hj hne => bucket_setEntries_of_ne index h.count_le hj hne

theorem Maintained.remove (h : Maintained pages ops index) (order : Iteration) {key : UInt32}
    {value : String} {tid : BrinValue} (hmem : (value, tid) ∈ index.entriesAt key) :
    Maintained pages (ops ++ [.delete order value tid])
      (index.setEntries key ((index.entriesAt key).erase (value, tid))) := by
  have hless : ∀ key', ∀ entry ∈ (index.setEntries key
      ((index.entriesAt key).erase (value, tid))).entriesAt key', entry ∈ index.entriesAt key' := by
    intro key' entry hentry
    rcases eq_or_ne key' key with rfl | hne
    · rw [entriesAt_setEntries_self] at hentry
      exact List.mem_of_mem_erase hentry
    · rwa [entriesAt_setEntries_of_ne index hne] at hentry
  constructor
  · exact h.pagesPerRange
  · exact h.count_le
  · exact h.placed
  · exact fun key' entry hentry => h.covered key' entry (hless key' entry hentry)
  · intro key' entry hentry
    obtain ⟨blockId, hop, hblock⟩ := h.inserted key' entry (hless key' entry hentry)
    exact ⟨blockId, List.mem_append_left _ hop, hblock⟩
  · obtain ⟨range, hsome, -⟩ := h.covered key _ hmem
    have hplace : key.toNat ∈ List.range index.ranges.length :=
      List.mem_range.mpr (List.getElem?_eq_some_iff.mp hsome).1
    have hperm : (stored index).Perm ((value, tid) :: stored (index.setEntries key
        ((index.entriesAt key).erase (value, tid)))) := by
      refine contents_cons List.nodup_range hplace ?_ ?_
      · rw [bucket_toNat, bucket_toNat, entriesAt_setEntries_self]
        exact List.perm_cons_erase hmem
      · exact fun j hj hne => (bucket_setEntries_of_ne index h.count_le hj hne).symm
    rw [remaining_append, ← h.stored_eq, BrinOp.apply, Multiset.coe_eq_coe.mpr hperm,
      ← Multiset.cons_coe, Multiset.erase_cons_head]

/-- An entry that is in no range. -/
theorem Maintained.keep (h : Maintained pages ops index) (order : Iteration) {value : String}
    {tid : BrinValue} (hmem : (value, tid) ∉ stored index) :
    Maintained pages (ops ++ [.delete order value tid]) index where
  pagesPerRange := h.pagesPerRange
  count_le := h.count_le
  placed := h.placed
  covered := h.covered
  inserted key entry hentry := by
    obtain ⟨blockId, hop, hblock⟩ := h.inserted key entry hentry
    exact ⟨blockId, List.mem_append_left _ hop, hblock⟩
  stored_eq := by
    rw [remaining_append, ← h.stored_eq, BrinOp.apply, Multiset.erase_of_notMem]
    exact hmem

theorem mem_keys_of_mem_entriesAt {key : UInt32} {entry : BrinEntry}
    (h : entry ∈ index.entriesAt key) : key ∈ index.values.keys := by
  rw [← AList.mem_keys, ← AList.lookup_isSome]
  unfold entriesAt at h
  cases hlookup : index.values.lookup key with
  | none =>
      rw [hlookup] at h
      cases h
  | some entries => rfl

theorem Maintained.delete (h : Maintained pages ops index) (order : Iteration) (value : String)
    (tid : BrinValue) :
    Maintained pages (ops ++ [.delete order value tid]) (index.delete order value tid).1 := by
  unfold BrinIndex.BrinIndex.delete
  cases hfind : (order.visit index.values.keys).find? fun key =>
      (value, tid) ∈ index.entriesAt key with
  | some key =>
      have hmem := List.find?_some hfind
      exact h.remove order (of_decide_eq_true hmem)
  | none =>
      apply h.keep order
      intro hmem
      obtain ⟨i, -, hbucket⟩ := List.mem_flatMap.mp hmem
      have hkey := (order.perm _).mem_iff.mpr (mem_keys_of_mem_entriesAt hbucket)
      exact List.find?_eq_none.mp hfind _ hkey (decide_eq_true hbucket)

theorem Maintained.step (h : Maintained pages ops index) (hpages : pages ≠ 0) (op : BrinOp) :
    ∃ index', step index op = some index' ∧ Maintained pages (ops ++ [op]) index' := by
  cases op with
  | insert blockId value tid =>
      obtain rfl := h.pagesPerRange
      refine ⟨_, insert_eq index hpages blockId value tid, ?_⟩
      exact (h.noted _ value).add rfl (exists_noted index _ value)
  | delete order value tid => exact ⟨_, rfl, h.delete order value tid⟩

theorem Maintained.run (h : Maintained pages ops index) (hpages : pages ≠ 0)
    (more : List BrinOp) :
    ∃ index', run index more = some index' ∧ Maintained pages (ops ++ more) index' := by
  induction more generalizing ops index with
  | nil =>
      rw [List.append_nil]
      exact ⟨index, rfl, h⟩
  | cons op more ih =>
      obtain ⟨next, hstep, hnext⟩ := h.step hpages op
      obtain ⟨last, hrun, hlast⟩ := ih hnext
      refine ⟨last, ?_, ?_⟩
      · rw [BrinPruning.run, List.foldlM_cons, hstep]
        exact hrun
      · rwa [List.append_assoc] at hlast

end Runs

section Searches

/-- The entries that a search of the ranges finds. -/
def hits (index : BrinIndex) (mightHave : BlockRangeSummary → Bool) (found : String → Bool) :
    List BrinEntry :=
  search (fun place : BlockRangeSummary × Nat => bucket index place.2)
    (fun place => mightHave place.1) (fun entry => found entry.1) index.ranges.zipIdx

theorem searchRanges_eq (index : BrinIndex) (mightHave : BlockRangeSummary → Bool)
    (found : String → Bool) :
    index.searchRanges mightHave found = (hits index mightHave found).map Prod.snd := by
  rw [searchRanges, hits, search, List.map_flatMap]
  apply List.flatMap_congr
  rintro ⟨range, i⟩ -
  show ite _ _ _ = List.map Prod.snd (ite _ _ _)
  split
  · rfl
  · rfl

theorem contents_zipIdx (index : BrinIndex) :
    contents (fun place : BlockRangeSummary × Nat => bucket index place.2) index.ranges.zipIdx =
      stored index := by
  rw [stored, List.range_eq_range', ← List.zipIdx_map_snd 0 index.ranges, contents, contents,
    List.flatMap_map]

variable {pages : UInt32} {ops : List BrinOp} {index : BrinIndex}
  {mightHave : BlockRangeSummary → Bool} {found : String → Bool}

theorem hits_sublist : (hits index mightHave found).Sublist
    ((stored index).filter fun entry => found entry.1) := by
  rw [← contents_zipIdx]
  exact search_sublist

/-- A search that reads every range whose summary covers what it looks for. -/
theorem Maintained.hits_eq (h : Maintained pages ops index)
    (hread : ∀ range value, Covers range value → found value → mightHave range)
    (hvalues : ∀ value, found value → ¬IsNull value) :
    hits index mightHave found = (stored index).filter fun entry => found entry.1 := by
  rw [← contents_zipIdx]
  apply search_eq_filter
  rintro ⟨range, i⟩ hplace entry hentry hfound
  have hrange : index.ranges[i]? = some range := List.mem_zipIdx_iff_getElem?.mp hplace
  obtain ⟨range', hrange', hcovers⟩ := h.covered _ entry hentry
  have hlt : i < 2 ^ 32 := (List.getElem?_eq_some_iff.mp hrange).1.trans_le h.count_le
  rw [toNat_ofNat_of_lt hlt, hrange, Option.some.injEq] at hrange'
  subst hrange'
  exact hread range entry.1 (hcovers (hvalues entry.1 hfound)) hfound

theorem Maintained.lookup_eq (h : Maintained pages ops index) {value : String}
    (hvalue : ¬IsNull value) :
    (index.lookup value : Multiset BrinValue) =
      ((remaining ops).filter fun entry => entry.1 = value).map Prod.snd := by
  have hhits := @Maintained.hits_eq pages ops index (·.mightContain value) (· = value) h
    (fun range found hcovers heq => of_decide_eq_true heq ▸ hcovers.mightContain)
    (fun found heq => of_decide_eq_true heq ▸ hvalue)
  rw [lookup, searchRanges_eq, hhits, ← h.stored_eq, Multiset.filter_coe, Multiset.map_coe]

theorem filter_hits (q : String → Bool) :
    (hits index mightHave found).filter (fun entry => q entry.1) =
      hits index mightHave fun value => found value && q value := by
  rw [hits, filter_search]
  rfl

def rangeHits (index : BrinIndex) (a b : String) : List BrinEntry :=
  hits index (·.mightOverlap a b) fun val => a ≤ val ∧ val ≤ b

theorem Maintained.rangeHits_values (h : Maintained pages ops index) (a b : String) :
    (rangeHits index a b).filter (fun entry => ¬IsNull entry.1) =
      (stored index).filter fun entry => ¬IsNull entry.1 ∧ a ≤ entry.1 ∧ entry.1 ≤ b := by
  have hhits : (rangeHits index a b).filter (fun entry => ¬IsNull entry.1) =
      (stored index).filter fun entry =>
        decide (a ≤ entry.1 ∧ entry.1 ≤ b) && decide ¬IsNull entry.1 := by
    rw [rangeHits, filter_hits fun value => ¬IsNull value]
    apply h.hits_eq
    · intro range value hcovers hfound
      obtain ⟨hle, hge⟩ := of_decide_eq_true (Bool.and_eq_true_iff.mp hfound).1
      exact hcovers.mightOverlap hle hge
    · exact fun value hfound => of_decide_eq_true (Bool.and_eq_true_iff.mp hfound).2
  rw [hhits]
  apply List.filter_congr
  intro entry _
  exact (Bool.and_comm _ _).trans (Bool.decide_and _ _).symm

/-- Values that count as nulls are found in some ranges. -/
theorem rangeHits_nulls (index : BrinIndex) (a b : String) :
    ((rangeHits index a b).filter fun entry => IsNull entry.1).Sublist
      ((stored index).filter fun entry => IsNull entry.1 ∧ a ≤ entry.1 ∧ entry.1 ≤ b) := by
  have hfilter : (stored index).filter (fun entry => IsNull entry.1 ∧ a ≤ entry.1 ∧ entry.1 ≤ b) =
      ((stored index).filter fun entry => a ≤ entry.1 ∧ entry.1 ≤ b).filter
        fun entry => IsNull entry.1 := by
    rw [List.filter_filter]
    apply List.filter_congr
    intro entry _
    rw [Bool.decide_and]
  rw [hfilter]
  exact hits_sublist.filter _

theorem Maintained.lookupRange_eq (h : Maintained pages ops index) (a b : String) :
    ∃ nulls ≤ (remaining ops).filter fun entry => IsNull entry.1 ∧ a ≤ entry.1 ∧ entry.1 ≤ b,
      (index.lookupRange a b : Multiset BrinValue) =
        ((remaining ops).filter fun entry =>
          ¬IsNull entry.1 ∧ a ≤ entry.1 ∧ entry.1 ≤ b).map Prod.snd + nulls.map Prod.snd := by
  refine ⟨((rangeHits index a b).filter fun entry => IsNull entry.1 : List BrinEntry), ?_, ?_⟩
  · rw [← h.stored_eq, Multiset.filter_coe]
    exact Multiset.coe_le.mpr (rangeHits_nulls index a b).subperm
  · have hsplit := Multiset.filter_add_not (fun entry : BrinEntry => ¬IsNull entry.1)
      (rangeHits index a b : Multiset BrinEntry)
    simp only [not_not, Multiset.filter_coe] at hsplit
    rw [lookupRange, searchRanges_eq, ← Multiset.map_coe, ← h.stored_eq, Multiset.filter_coe,
      ← h.rangeHits_values a b, ← Multiset.map_add, hsplit]
    rfl

end Searches

section Blocks

variable {pages : UInt32} {ops : List BrinOp} {index : BrinIndex}

/-- The numbers of the block's range do not wrap around. -/
def BrinOp.Fits (pages : UInt32) : BrinOp → Prop
  | .insert blockId _ _ => (blockId.toNat / pages.toNat + 1) * pages.toNat < 2 ^ 32
  | .delete _ _ _ => True

instance : DecidablePred (BrinOp.Fits pages)
  | .insert _ _ _ => inferInstanceAs (Decidable (_ < _))
  | .delete _ _ _ => inferInstanceAs (Decidable True)

theorem Placed.mem {blockId : UInt32} {range : BlockRangeSummary}
    (h : Placed pages (blockId / pages).toNat range) (hpages : pages ≠ 0)
    (hfits : (blockId.toNat / pages.toNat + 1) * pages.toNat < 2 ^ 32) :
    range.blockStart ≤ blockId ∧ blockId ≤ range.blockEnd := by
  have hpos : 0 < pages.toNat := Nat.pos_of_ne_zero fun hzero => hpages (UInt32.toNat_inj.mp hzero)
  obtain ⟨hstart, hend⟩ := h
  rw [hstart, hend, UInt32.ofNat_toNat, UInt32.le_iff_toNat_le, UInt32.le_iff_toNat_le]
  have hlow : blockId.toNat / pages.toNat * pages.toNat ≤ blockId.toNat := Nat.div_mul_le_self _ _
  have hhigh : blockId.toNat < blockId.toNat / pages.toNat * pages.toNat + pages.toNat :=
    Nat.lt_div_mul_add hpos
  have hnext : blockId.toNat / pages.toNat + 1 < 2 ^ 32 :=
    (Nat.le_mul_of_pos_right _ hpos).trans_lt hfits
  have hproduct : ((blockId / pages + 1) * pages).toNat =
      blockId.toNat / pages.toNat * pages.toNat + pages.toNat := by
    rw [UInt32.toNat_mul, UInt32.toNat_add, UInt32.toNat_div, UInt32.toNat_one,
      Nat.mod_eq_of_lt hnext, Nat.mod_eq_of_lt hfits, Nat.add_one_mul]
  constructor
  · rw [UInt32.toNat_mul, UInt32.toNat_div, Nat.mod_eq_of_lt (hlow.trans_lt blockId.toNat_lt)]
    exact hlow
  · have hone : (1 : UInt32) ≤ (blockId / pages + 1) * pages := by
      rw [UInt32.le_iff_toNat_le, hproduct, UInt32.toNat_one]
      omega
    rw [UInt32.toNat_sub_of_le _ _ hone, hproduct, UInt32.toNat_one]
    omega

theorem Maintained.entry_in_range (h : Maintained pages ops index) (hpages : pages ≠ 0)
    (hfits : ∀ op ∈ ops, op.Fits pages) {key : UInt32} {entry : BrinEntry}
    (hentry : entry ∈ index.entriesAt key) :
    ∃ blockId range, .insert blockId entry.1 entry.2 ∈ ops ∧ blockId / pages = key ∧
      index.ranges[key.toNat]? = some range ∧
      range.blockStart ≤ blockId ∧ blockId ≤ range.blockEnd ∧
      (¬IsNull entry.1 → Covers range entry.1) := by
  obtain ⟨blockId, hop, rfl⟩ := h.inserted key entry hentry
  obtain ⟨range, hrange, hcovers⟩ := h.covered _ entry hentry
  obtain ⟨hstart, hend⟩ := (h.placed _ range hrange).mem hpages (hfits _ hop)
  exact ⟨blockId, range, hop, rfl, hrange, hstart, hend, hcovers⟩

theorem brin_pruning_loses_nothing (pages : UInt32) (hpages : 0 < pages) (ops : List BrinOp)
    (hfits : ∀ op ∈ ops, op.Fits pages) :
    ∃ index, run (new.withPagesPerRange pages) ops = some index ∧
      (stored index : Multiset BrinEntry) = remaining ops ∧
      (∀ key, ∀ entry ∈ index.entriesAt key, ∃ blockId range,
        .insert blockId entry.1 entry.2 ∈ ops ∧ blockId / pages = key ∧
          index.ranges[key.toNat]? = some range ∧
          range.blockStart ≤ blockId ∧ blockId ≤ range.blockEnd ∧
          (¬IsNull entry.1 → Covers range entry.1)) ∧
      (∀ value, ¬IsNull value →
        (index.lookup value : Multiset BrinValue) =
          ((remaining ops).filter fun entry => entry.1 = value).map Prod.snd) ∧
      ∀ a b, ∃ nulls ≤ (remaining ops).filter fun entry =>
          IsNull entry.1 ∧ a ≤ entry.1 ∧ entry.1 ≤ b,
        (index.lookupRange a b : Multiset BrinValue) =
          ((remaining ops).filter fun entry =>
            ¬IsNull entry.1 ∧ a ≤ entry.1 ∧ entry.1 ≤ b).map Prod.snd + nulls.map Prod.snd := by
  have hne : pages ≠ 0 := UInt32.pos_iff_ne_zero.mp hpages
  obtain ⟨index, hrun, h⟩ := (maintained_new pages).run hne ops
  rw [List.nil_append] at h
  refine ⟨index, hrun, h.stored_eq, ?_, ?_, h.lookupRange_eq⟩
  · exact fun key entry hentry => h.entry_in_range hne hfits hentry
  · exact fun value hvalue => h.lookup_eq hvalue

/-- Two blocks of different ranges; the entry of the first is deleted. -/
theorem brin_pruning_loses_nothing_two :
    ∃ index, run (new.withPagesPerRange 2)
        [.insert 0 "b" (⟨1⟩, 0), .insert 3 "a" (⟨1⟩, 1),
          .delete ⟨id, List.Perm.refl⟩ "b" (⟨1⟩, 0)] = some index ∧
      (index.lookup "a" : Multiset BrinValue) = {(⟨1⟩, 1)} := by
  obtain ⟨index, hrun, -, -, hlookup, -⟩ := brin_pruning_loses_nothing 2 (by decide)
    [.insert 0 "b" (⟨1⟩, 0), .insert 3 "a" (⟨1⟩, 1), .delete ⟨id, List.Perm.refl⟩ "b" (⟨1⟩, 0)]
    (by decide)
  refine ⟨index, hrun, ?_⟩
  rw [hlookup "a" (by decide)]
  decide

end Blocks

end PostgressRs.Btree.BrinPruning
