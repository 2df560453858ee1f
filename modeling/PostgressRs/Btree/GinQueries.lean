import PostgressRs.Btree.GinIndex

/-!
Queries of inverted indexes against lookups: what lowercased and repeated keys do to them.
-/

namespace PostgressRs.Btree.GinQueries

open PostgressRs.Btree.GinIndex
open PostgressRs.Btree.GinIndex.GinIndex
open PostgressRs.Lib.Postings
open PostgressRs.Types

section Searches

variable {index : GinIndex} {tid : Tid}

theorem isPosted_iff {value : String} :
    index.isPosted tid value = true ↔ tid ∈ under index.entries value := by
  rw [isPosted, under]
  cases index.entries.lookup value with
  | none => exact iff_of_false Bool.false_ne_true List.not_mem_nil
  | some tids => exact decide_eq_true_iff

theorem contains_cons (index : GinIndex) (first : String) (values : List String) :
    index.contains (first :: values) =
      (under index.entries first).filter fun tid => values.all (index.isPosted tid) := by
  rw [GinIndex.contains, under]
  cases index.entries.lookup first with
  | none => rfl
  | some tids => rfl

theorem mem_contains {first : String} {values : List String} :
    tid ∈ index.contains (first :: values) ↔
      ∀ v ∈ first :: values, tid ∈ under index.entries v := by
  rw [contains_cons, List.mem_filter, List.all_eq_true, List.forall_mem_cons]
  simp only [isPosted_iff]

theorem coe_contains (index : GinIndex) (first : String) (values : List String) :
    (index.contains (first :: values) : Multiset Tid) =
      (under index.entries first : Multiset Tid).filter fun tid =>
        ∀ value ∈ values, tid ∈ under index.entries value := by
  rw [contains_cons, Multiset.filter_coe]
  congr 1
  apply List.filter_congr
  intro tid _
  rw [Bool.eq_iff_iff, List.all_eq_true, decide_eq_true_iff]
  simp only [isPosted_iff]

/-- The set of the tids that were seen is that of the result, which repeats none. -/
structure Consistent (found : Found) : Prop where
  nodup : found.result.Nodup
  mem_seen : ∀ tid, tid ∈ found.seen ↔ tid ∈ found.result

variable {found : Found}

theorem mem_note (h : Consistent found) (tid' : Tid) :
    tid ∈ (found.note tid').result ↔ tid ∈ found.result ∨ tid = tid' := by
  rw [Found.note]
  split
  · have hseen : tid' ∈ found.result := (h.mem_seen tid').mp ‹_›
    constructor
    · exact .inl
    · rintro (hmem | rfl)
      · exact hmem
      · exact hseen
  · rw [List.mem_append, List.mem_singleton]

theorem Consistent.note (h : Consistent found) (tid' : Tid) : Consistent (found.note tid') := by
  rw [Found.note]
  split
  · exact h
  · constructor
    · have hnew : tid' ∉ found.result := fun hmem => ‹tid' ∉ found.seen› ((h.mem_seen _).mpr hmem)
      exact List.nodup_append.mpr ⟨h.nodup, List.nodup_singleton tid',
        fun a ha b hb => by rintro rfl; exact hnew (List.mem_singleton.mp hb ▸ ha)⟩
    · intro tid
      rw [Finset.mem_insert, List.mem_append, List.mem_singleton, h.mem_seen, or_comm]

theorem foldl_note (h : Consistent found) (tids : List Tid) :
    Consistent (tids.foldl Found.note found) ∧
      ∀ tid, tid ∈ (tids.foldl Found.note found).result ↔ tid ∈ found.result ∨ tid ∈ tids := by
  induction tids generalizing found with
  | nil => exact ⟨h, fun tid => by simp⟩
  | cons tid' tids ih =>
      obtain ⟨hconsistent, hmem⟩ := ih (h.note tid')
      refine ⟨hconsistent, ?_⟩
      intro tid
      rw [List.foldl_cons, hmem, mem_note h, List.mem_cons, or_assoc]

theorem noteAll_eq (index : GinIndex) (found : Found) (value : String) :
    index.noteAll found value = (under index.entries value).foldl Found.note found := by
  rw [noteAll, under]
  cases index.entries.lookup value with
  | none => rfl
  | some tids => rfl

theorem foldl_noteAll (h : Consistent found) (values : List String) :
    Consistent (values.foldl index.noteAll found) ∧
      ∀ tid, tid ∈ (values.foldl index.noteAll found).result ↔
        tid ∈ found.result ∨ ∃ v ∈ values, tid ∈ under index.entries v := by
  induction values generalizing found with
  | nil => exact ⟨h, fun tid => by simp⟩
  | cons value values ih =>
      obtain ⟨hnext, hnoted⟩ := foldl_note h (under index.entries value)
      rw [← noteAll_eq] at hnext hnoted
      obtain ⟨hconsistent, hmem⟩ := ih hnext
      refine ⟨hconsistent, ?_⟩
      intro tid
      rw [List.foldl_cons, hmem, hnoted, List.exists_mem_cons_iff, or_assoc]

theorem consistent_empty : Consistent ⟨[], ∅⟩ := ⟨List.nodup_nil, fun _ => by simp⟩

theorem nodup_anyContains (index : GinIndex) (values : List String) :
    (index.anyContains values).Nodup :=
  (foldl_noteAll consistent_empty values).1.nodup

theorem mem_anyContains {values : List String} :
    tid ∈ index.anyContains values ↔ ∃ v ∈ values, tid ∈ under index.entries v := by
  rw [anyContains, (foldl_noteAll consistent_empty values).2]
  exact or_iff_right List.not_mem_nil

end Searches

section Runs

variable [Casing]

/-- What the entry of a key of a document is kept under. -/
def normalize : GinIndexType → String → String
  | .fullText => toLowercase
  | .array => id
  | .jsonb => id

inductive GinOp where
  | insert (keys : List String) (tid : Tid)
  | delete (key : String) (tid : Tid)

/-- An insertion by the function for the type of the index. -/
def insertKeys (index : GinIndex) (keys : List String) (tid : Tid) : GinIndex :=
  match index.indexType with
  | .array => index.insertArrayValues keys tid
  | .fullText => index.insertFullText keys tid
  | .jsonb => index.insertJsonbKeys keys tid

def step (index : GinIndex) : GinOp → GinIndex
  | .insert keys tid => insertKeys index keys tid
  | .delete key tid => (index.delete key tid).1

def run (type : GinIndexType) (ops : List GinOp) : GinIndex := ops.foldl step (.new type)

def edits (type : GinIndexType) : GinOp → List (Edit String Tid)
  | .insert keys tid => keys.map fun key => .insert (normalize type key) tid
  | .delete key tid => [.delete key tid]

/-- How often a tid was inserted under a key. -/
def insertedTimes (type : GinIndexType) (ops : List GinOp) (key : String) (tid : Tid) : Nat :=
  (pushed (ops.flatMap (edits type)) : Multiset (String × Tid)).count (normalize type key, tid)

variable {type : GinIndexType} {index : GinIndex} {ops : List GinOp}

theorem normalize_normalize (type : GinIndexType) (key : String) :
    normalize type (normalize type key) = normalize type key := by
  cases type with
  | array | jsonb => rfl
  | fullText => exact toLowercase_toLowercase key

theorem insertKeys_eq (index : GinIndex) (keys : List String) (tid : Tid) :
    insertKeys index keys tid = index.pushAll (normalize index.indexType) keys tid := by
  rw [insertKeys]
  cases index.indexType with
  | array | fullText | jsonb => rfl

theorem lookup_eq (index : GinIndex) (key : String) :
    index.lookup key = under index.entries (normalize index.indexType key) := by
  rw [GinIndex.lookup]
  cases index.indexType with
  | array | fullText | jsonb => rfl

theorem step_eq (index : GinIndex) (op : GinOp) :
    step index op = ⟨index.indexType, applyAll index.entries (edits index.indexType op)⟩ := by
  cases op with
  | insert keys tid =>
      rw [step, insertKeys_eq, pushAll, edits, applyAll, List.foldl_map]
      rfl
  | delete key tid => rfl

theorem run_eq (type : GinIndexType) (ops : List GinOp) :
    run type ops = ⟨type, applyAll ∅ (ops.flatMap (edits type))⟩ := by
  have hfold : ∀ entries, ops.foldl step ⟨type, entries⟩ =
      ⟨type, applyAll entries (ops.flatMap (edits type))⟩ := by
    induction ops with
    | nil => exact fun _ => rfl
    | cons op ops ih =>
        intro entries
        rw [List.foldl_cons, step_eq, ih, List.flatMap_cons, applyAll, applyAll, applyAll,
          List.foldl_append]
  exact hfold ∅

theorem holds_run (type : GinIndexType) (ops : List GinOp) :
    Holds (run type ops).entries (remaining (ops.flatMap (edits type))) := by
  rw [run_eq]
  exact holds_applyAll _

@[simp] theorem indexType_run (type : GinIndexType) (ops : List GinOp) :
    (run type ops).indexType = type := by
  rw [run_eq]

/-- Entries are only ever kept under normalized keys. -/
theorem normalize_eq_of_mem {key : String} {tid : Tid}
    (h : tid ∈ under (run type ops).entries key) : normalize type key = key := by
  rw [← Multiset.mem_coe, holds_run type ops key, mem_elementsUnder] at h
  have hpushed := mem_pushed.mp (Multiset.mem_coe.mp (Multiset.mem_of_le (remaining_le_pushed _) h))
  obtain ⟨op, -, hop⟩ := List.mem_flatMap.mp hpushed
  cases op with
  | insert keys tid' =>
      obtain ⟨key', -, heq⟩ := List.mem_map.mp hop
      obtain ⟨rfl, -⟩ := Edit.insert.inj heq
      exact normalize_normalize type key'
  | delete key' tid' => cases List.mem_singleton.mp hop

theorem mem_lookup_iff {key : String} {tid : Tid} :
    tid ∈ under (run type ops).entries key ↔
      normalize type key = key ∧ tid ∈ (run type ops).lookup key := by
  rw [lookup_eq, indexType_run]
  constructor
  · intro h
    have hkey := normalize_eq_of_mem h
    exact ⟨hkey, hkey.symm ▸ h⟩
  · rintro ⟨hkey, h⟩
    rwa [hkey] at h

theorem count_le_insertedTimes (type : GinIndexType) (ops : List GinOp) (key : String)
    (tid : Tid) :
    ((run type ops).lookup key : Multiset Tid).count tid ≤ insertedTimes type ops key tid := by
  rw [lookup_eq, indexType_run, holds_run, count_elementsUnder]
  exact Multiset.count_le_of_le _ (remaining_le_pushed _)

end Runs

section Laws

variable [Casing] (index : GinIndex)

def ContainsLaw (values : List String) : Prop :=
  (index.contains values).Nodup ∧
    ∀ tid, tid ∈ index.contains values ↔ ∀ v ∈ values, tid ∈ index.lookup v

def AnyContainsLaw (values : List String) : Prop :=
  (index.anyContains values).Nodup ∧
    ∀ tid, tid ∈ index.anyContains values ↔ ∃ v ∈ values, tid ∈ index.lookup v

def DeleteLaw (type : GinIndexType) (ops : List GinOp) (key : String) (tid : Tid) : Prop :=
  insertedTimes type ops key tid = 1 → tid ∉ ((run type ops).delete key tid).1.lookup key

variable {index} {type : GinIndexType} {ops : List GinOp}

/-- What all keys have in common is found only under normalized ones, and repeats if the first
of them has it twice. -/
theorem containsLaw_iff {first : String} {values : List String} :
    ContainsLaw (run type ops) (first :: values) ↔
      ∀ tid, (∀ v ∈ first :: values, tid ∈ (run type ops).lookup v) →
        (∀ v ∈ first :: values, normalize type v = v) ∧
          ((run type ops).lookup first : Multiset Tid).count tid ≤ 1 := by
  constructor
  · rintro ⟨hnodup, hmem⟩ tid hcommon
    have hposted := mem_contains.mp ((hmem tid).mpr hcommon)
    have hnormal : ∀ v ∈ first :: values, normalize type v = v := by
      intro v hv
      exact (mem_lookup_iff.mp (hposted v hv)).1
    refine ⟨hnormal, ?_⟩
    have hothers : ∀ value ∈ values, tid ∈ under (run type ops).entries value :=
      fun v hv => hposted v (List.mem_cons_of_mem _ hv)
    rw [← Multiset.coe_nodup, coe_contains, Multiset.nodup_iff_count_le_one] at hnodup
    have hone := hnodup tid
    rw [Multiset.count_filter_of_pos hothers] at hone
    rwa [lookup_eq, indexType_run, hnormal first List.mem_cons_self]
  · intro h
    have hposted : ∀ tid, (∀ v ∈ first :: values, tid ∈ (run type ops).lookup v) →
        ∀ v ∈ first :: values, tid ∈ under (run type ops).entries v := by
      intro tid hcommon v hv
      exact mem_lookup_iff.mpr ⟨(h tid hcommon).1 v hv, hcommon v hv⟩
    have hcommon : ∀ tid, tid ∈ (run type ops).contains (first :: values) ↔
        ∀ v ∈ first :: values, tid ∈ (run type ops).lookup v := by
      intro tid
      rw [mem_contains]
      exact ⟨fun hmem v hv => (mem_lookup_iff.mp (hmem v hv)).2, hposted tid⟩
    refine ⟨?_, hcommon⟩
    rw [← Multiset.coe_nodup, Multiset.nodup_iff_count_le_one]
    intro tid
    by_cases hmem : tid ∈ (run type ops).contains (first :: values)
    · obtain ⟨hnormal, hone⟩ := h tid ((hcommon tid).mp hmem)
      rw [lookup_eq, indexType_run, hnormal first List.mem_cons_self] at hone
      rw [coe_contains]
      exact (Multiset.count_le_of_le tid (Multiset.filter_le _ _)).trans hone
    · rw [Multiset.count_eq_zero_of_notMem hmem]
      exact Nat.zero_le 1

theorem anyContainsLaw_iff {values : List String} :
    AnyContainsLaw (run type ops) values ↔
      ∀ v ∈ values, ∀ tid ∈ (run type ops).lookup v,
        ∃ w ∈ values, normalize type w = w ∧ tid ∈ (run type ops).lookup w := by
  rw [AnyContainsLaw, and_iff_right (nodup_anyContains _ _)]
  simp only [mem_anyContains, mem_lookup_iff]
  constructor
  · intro h v hv tid htid
    exact (h tid).mpr ⟨v, hv, htid⟩
  · intro h tid
    constructor
    · rintro ⟨v, hv, -, htid⟩
      exact ⟨v, hv, htid⟩
    · rintro ⟨v, hv, htid⟩
      exact h v hv tid htid

theorem lookup_delete (index : GinIndex) (key : String) (tid : Tid) :
    ((index.delete key tid).1.lookup key : Multiset Tid) =
      if normalize index.indexType key = key then (index.lookup key : Multiset Tid).erase tid
      else index.lookup key := by
  rw [lookup_eq, lookup_eq]
  show (under (remove index.entries key tid).1 (normalize index.indexType key) : Multiset Tid) = _
  split
  · rw [‹normalize index.indexType key = key›, under_remove_self, Multiset.coe_erase]
  · rw [under_remove_of_ne ‹_›]

theorem deleteLaw_iff {key : String} {tid : Tid} :
    DeleteLaw type ops key tid ↔
      (insertedTimes type ops key tid = 1 →
        normalize type key = key ∨ tid ∉ (run type ops).lookup key) := by
  rw [DeleteLaw, ← Multiset.mem_coe, lookup_delete, indexType_run]
  apply imp_congr_right
  intro hone
  by_cases hkey : normalize type key = key
  · rw [if_pos hkey]
    refine iff_of_true ?_ (.inl hkey)
    have hcount := (count_le_insertedTimes type ops key tid).trans_eq hone
    rw [← Multiset.count_eq_zero, Multiset.count_erase_self]
    omega
  · rw [if_neg hkey, Multiset.mem_coe]
    exact (or_iff_right hkey).symm

/-- Queries and deletions agree with lookups exactly as far as keys are lowercased and, for what
is looked for first, not repeated. -/
theorem gin_queries_iff (type : GinIndexType) (ops : List GinOp) :
    (∀ first values, ContainsLaw (run type ops) (first :: values) ↔
      ∀ tid, (∀ v ∈ first :: values, tid ∈ (run type ops).lookup v) →
        (∀ v ∈ first :: values, normalize type v = v) ∧
          ((run type ops).lookup first : Multiset Tid).count tid ≤ 1) ∧
    (∀ values, AnyContainsLaw (run type ops) values ↔
      ∀ v ∈ values, ∀ tid ∈ (run type ops).lookup v,
        ∃ w ∈ values, normalize type w = w ∧ tid ∈ (run type ops).lookup w) ∧
    (∀ key tid, DeleteLaw type ops key tid ↔
      (insertedTimes type ops key tid = 1 →
        normalize type key = key ∨ tid ∉ (run type ops).lookup key)) ∧
    ∀ key key', normalize type key = normalize type key' →
      (run type ops).lookup key = (run type ops).lookup key' := by
  refine ⟨?_, ?_, ?_, ?_⟩
  · exact fun first values => containsLaw_iff
  · exact fun values => anyContainsLaw_iff
  · exact fun key tid => deleteLaw_iff
  · intro key key' heq
    rw [lookup_eq, lookup_eq, indexType_run, heq]

end Laws

section Documents

theorem toLower_toLower (char : Char) : char.toLower.toLower = char.toLower := by
  by_cases hupper : char.val ≥ 'A'.val ∧ char.val ≤ 'Z'.val
  · have hlower : char.toLower.val = char.val + 32 := by
      unfold Char.toLower
      rw [dif_pos hupper]
      rfl
    have hnot : ¬(char.toLower.val ≥ 'A'.val ∧ char.toLower.val ≤ 'Z'.val) := by
      have hfrom : 65 ≤ char.val.toNat := UInt32.le_iff_toNat_le.mp hupper.1
      have hto : char.val.toNat ≤ 90 := UInt32.le_iff_toNat_le.mp hupper.2
      rintro ⟨-, hle⟩
      have hbeyond : char.toLower.val.toNat ≤ 90 := UInt32.le_iff_toNat_le.mp hle
      have hshift : (32 : UInt32).toNat = 32 := rfl
      rw [hlower, UInt32.toNat_add, hshift] at hbeyond
      omega
    generalize char.toLower = lowered at hnot
    unfold Char.toLower
    exact dif_neg hnot
  · unfold Char.toLower
    rw [dif_neg hupper, dif_neg hupper]

/-- ASCII texts only. -/
@[reducible] def asciiCasing : Casing where
  toLowercase s := String.ofList (s.toList.map Char.toLower)
  toLowercase_toLowercase s := by
    rw [String.toList_ofList, List.map_map]
    congr 1
    exact List.map_congr_left fun char _ => toLower_toLower char

attribute [local instance] asciiCasing

/-- A key that is twice in one document, and a term in the case in which it was inserted. -/
theorem repeated_and_uppercase_keys_break_laws :
    ¬ContainsLaw (run .array [.insert ["a", "a"] (⟨1⟩, 0)]) ["a"] ∧
      ¬AnyContainsLaw (run .fullText [.insert ["Hello"] (⟨1⟩, 0)]) ["Hello"] ∧
      ¬DeleteLaw .fullText [.insert ["Hello"] (⟨1⟩, 0)] "Hello" (⟨1⟩, 0) := by
  refine ⟨?_, ?_, ?_⟩
  · rw [containsLaw_iff]
    intro h
    have hone := (h (⟨1⟩, 0) (by decide)).2
    revert hone
    decide
  · rw [anyContainsLaw_iff]
    intro h
    obtain ⟨w, hw, hnormal, -⟩ := h "Hello" (by decide) (⟨1⟩, 0) (by decide)
    revert hnormal
    rw [List.mem_singleton.mp hw]
    decide
  · rw [deleteLaw_iff]
    intro h
    rcases h (by decide) with hnormal | hgone
    · revert hnormal
      decide
    · exact hgone (by decide)

end Documents

end PostgressRs.Btree.GinQueries
