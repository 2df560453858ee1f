import PostgressRs.Lib.Postings
import PostgressRs.Types

/-!
Hash indexes (`src/btree/hash_index.rs`).  An entry keeps the hash of its key and not the key.
-/

namespace PostgressRs.Btree.HashIndex

open PostgressRs.Lib.ByteBuffer
open PostgressRs.Lib.Postings
open PostgressRs.Types

abbrev Tid : Type := PageId × UInt16

structure HashIndex where
  entries : PostingLists UInt32 Tid

namespace HashIndex

def new : HashIndex := ⟨∅⟩

def hashValue (key : Bytes) : UInt32 := rollingHash key

def insert (self : HashIndex) (key : Bytes) (tid : Tid) : HashIndex :=
  ⟨push self.entries (hashValue key) tid⟩

def lookup (self : HashIndex) (key : Bytes) : List Tid := under self.entries (hashValue key)

def delete (self : HashIndex) (key : Bytes) (tid : Tid) : HashIndex × Bool :=
  let (entries, deleted) := remove self.entries (hashValue key) tid
  (⟨entries⟩, deleted)

end HashIndex

section Runs

inductive HashOp where
  | insert (key : Bytes) (tid : Tid)
  | delete (key : Bytes) (tid : Tid)

def HashOp.key : HashOp → Bytes
  | .insert key _ => key
  | .delete key _ => key

def step (index : HashIndex) : HashOp → HashIndex
  | .insert key tid => index.insert key tid
  | .delete key tid => (index.delete key tid).1

def run (ops : List HashOp) : HashIndex := ops.foldl step .new

def HashOp.edit : HashOp → Edit Bytes Tid
  | .insert key tid => .insert key tid
  | .delete key tid => .delete key tid

/-- The tids inserted under a key and not deleted under it. -/
def remainingUnder (ops : List HashOp) (key : Bytes) : Multiset Tid :=
  elementsUnder (remaining (ops.map HashOp.edit)) key

/-- The tids inserted under a hash value and not deleted under it. -/
def remainingUnderHash (ops : List HashOp) (hash : UInt32) : Multiset Tid :=
  elementsUnder (remaining ((ops.map HashOp.edit).map (Edit.mapKey HashIndex.hashValue))) hash

theorem entries_run (ops : List HashOp) :
    (run ops).entries =
      applyAll ∅ ((ops.map HashOp.edit).map (Edit.mapKey HashIndex.hashValue)) := by
  have hfold : ∀ index : HashIndex, (ops.foldl step index).entries =
      applyAll index.entries ((ops.map HashOp.edit).map (Edit.mapKey HashIndex.hashValue)) := by
    induction ops with
    | nil => exact fun _ => rfl
    | cons op ops ih =>
        intro index
        rw [List.foldl_cons, ih]
        cases op with
        | insert key tid => rfl
        | delete key tid => rfl
  exact hfold .new

theorem lookup_run (ops : List HashOp) (key : Bytes) :
    ((run ops).lookup key : Multiset Tid) =
      remainingUnderHash ops (HashIndex.hashValue key) := by
  rw [HashIndex.lookup, entries_run]
  exact holds_applyAll _ _

/-- Where no other key of the operations has the hash of a key. -/
theorem remainingUnderHash_eq {ops : List HashOp} {key : Bytes}
    (h : ∀ op ∈ ops, HashIndex.hashValue op.key = HashIndex.hashValue key → op.key = key) :
    remainingUnderHash ops (HashIndex.hashValue key) = remainingUnder ops key := by
  apply elementsUnder_mapKey
  intro edit hedit
  obtain ⟨op, hop, rfl⟩ := List.mem_map.mp hedit
  cases op with
  | insert key' tid => exact h _ hop
  | delete key' tid => exact h _ hop

theorem delete_snd_iff (index : HashIndex) (key : Bytes) (tid : Tid) :
    (index.delete key tid).2 = true ↔ tid ∈ index.lookup key :=
  remove_snd_iff

theorem lookup_delete_of_ne (index : HashIndex) {key key' : Bytes}
    (h : HashIndex.hashValue key' ≠ HashIndex.hashValue key) (tid : Tid) :
    (index.delete key tid).1.lookup key' = index.lookup key' :=
  under_remove_of_ne h tid

end Runs

section Keys

/-- A hash index is a map from hash values, and from keys as far as no two of them collide. -/
theorem hash_index_maps_hashes (ops : List HashOp) (key : Bytes) :
    ((run ops).lookup key : Multiset Tid) =
        remainingUnderHash ops (HashIndex.hashValue key) ∧
      (∀ tid, ((run ops).delete key tid).2 = true ↔
        tid ∈ remainingUnderHash ops (HashIndex.hashValue key)) ∧
      (∀ tid key', HashIndex.hashValue key' ≠ HashIndex.hashValue key →
        ((run ops).delete key tid).1.lookup key' = (run ops).lookup key') ∧
      ((∀ op ∈ ops, HashIndex.hashValue op.key = HashIndex.hashValue key → op.key = key) →
        ((run ops).lookup key : Multiset Tid) = remainingUnder ops key) := by
  refine ⟨lookup_run ops key, ?_, ?_, ?_⟩
  · intro tid
    rw [delete_snd_iff, ← lookup_run, Multiset.mem_coe]
  · exact fun tid key' hne => lookup_delete_of_ne (run ops) hne tid
  · exact fun h => (lookup_run ops key).trans (remainingUnderHash_eq h)

/-- The keys `Aa` and `BB`. -/
theorem hash_index_confuses_keys :
    (run [.insert [65, 97] (⟨1⟩, 0)]).lookup [66, 66] = [(⟨1⟩, 0)] ∧
      remainingUnder [.insert [65, 97] (⟨1⟩, 0)] [66, 66] = 0 ∧
      ((run [.insert [65, 97] (⟨1⟩, 0)]).delete [66, 66] (⟨1⟩, 0)).2 = true := by
  decide

end Keys

end PostgressRs.Btree.HashIndex
