import PostgressRs.Lib.Comparisons
import PostgressRs.Types

/-!
Long values in chunks (`src/storage/toast.rs`).  Places in a value are natural numbers.
-/

namespace PostgressRs.Storage.Toast

open PostgressRs.Lib.ByteBuffer
open PostgressRs.Lib.Comparisons
open PostgressRs.Types

def toastThreshold : Nat := 2040

def toastMaxChunkSize : Nat := 1996

structure ToastPointer where
  rawSize : UInt32
  storedSize : UInt32
  toastTableOid : Oid
  chunkIds : List UInt32

section Chunks

/-- `len.div_ceil(size)`. -/
def divCeil (len size : Nat) : Nat := if len % size = 0 then len / size else len / size + 1

def maybeToast (data : Bytes) (relOid : Oid) : Option ToastPointer :=
  if data.length ≤ toastThreshold then none
  else
    some
      { rawSize := UInt32.ofNat data.length
        storedSize := UInt32.ofNat data.length
        toastTableOid := ⟨relOid.val + 1⟩
        chunkIds := (List.range (divCeil data.length toastMaxChunkSize)).map UInt32.ofNat }

def chunkData (data : Bytes) (chunkIndex : Nat) : Option Bytes :=
  let start := chunkIndex * toastMaxChunkSize
  if data.length ≤ start then none
  else
    let stop := min (start + toastMaxChunkSize) data.length
    some ((data.drop start).take (stop - start))

/-- The keys of two chunks. -/
def compareIds (a b : UInt32 × Bytes) : Ordering := compare a.1.toNat b.1.toNat

def detoastChunks (chunks : List (UInt32 × Bytes)) (rawSize : UInt32) : Bytes :=
  ((sortBy compareIds chunks).flatMap Prod.snd).take rawSize.toNat

end Chunks

section RoundTrip

variable {data : Bytes}

/-- The chunk at a place, by the bytes that there are. -/
def chunkAt (data : Bytes) (i : Nat) : Bytes :=
  (data.drop (i * toastMaxChunkSize)).take toastMaxChunkSize

theorem chunkData_eq {i : Nat} (h : i * toastMaxChunkSize < data.length) :
    chunkData data i = some (chunkAt data i) := by
  simp only [chunkData, if_neg (Nat.not_le_of_lt h), Option.some.injEq, chunkAt]
  rw [List.take_eq_take_iff, List.length_drop]
  omega

theorem chunkAt_ne_nil {i : Nat} (h : i * toastMaxChunkSize < data.length) :
    chunkAt data i ≠ [] := by
  have hpos : 0 < toastMaxChunkSize := by decide
  rw [chunkAt, ← List.length_pos_iff, List.length_take, List.length_drop]
  omega

theorem flatMap_chunkAt (data : Bytes) (count : Nat) :
    (List.range count).flatMap (chunkAt data) = data.take (count * toastMaxChunkSize) := by
  induction count with
  | zero =>
      rw [Nat.zero_mul]
      rfl
  | succ count ih =>
      rw [List.range_succ, List.flatMap_append, ih, List.flatMap_singleton, Nat.succ_mul,
        List.take_add]
      rfl

theorem lt_divCeil_iff {len size i : Nat} (h : 0 < size) :
    i < divCeil len size ↔ i * size < len := by
  rw [divCeil]
  split
  · have hdvd : size ∣ len := Nat.dvd_of_mod_eq_zero ‹_›
    exact Nat.lt_div_iff_mul_lt_of_dvd (Nat.ne_of_gt h) hdvd
  · have hne : i * size ≠ len := by
      rintro rfl
      exact ‹¬_› (Nat.mul_mod_left i size)
    rw [Nat.lt_succ_iff, Nat.le_div_iff_mul_le h]
    omega

theorem le_divCeil_mul (len : Nat) {size : Nat} (h : 0 < size) :
    len ≤ divCeil len size * size :=
  Nat.le_of_not_lt fun hlt => Nat.lt_irrefl _ ((lt_divCeil_iff h).mpr hlt)

/-- The chunks of a value as they are stored. -/
def chunksOf (data : Bytes) : List (UInt32 × Bytes) :=
  (List.range (divCeil data.length toastMaxChunkSize)).map fun i =>
    (UInt32.ofNat i, chunkAt data i)

theorem toNat_of_lt_divCeil (h : data.length < 2 ^ 32) {i : Nat}
    (hi : i < divCeil data.length toastMaxChunkSize) : (UInt32.ofNat i).toNat = i := by
  have hstart := (lt_divCeil_iff (by decide)).mp hi
  have hle : i ≤ i * toastMaxChunkSize := Nat.le_mul_of_pos_right i (by decide)
  rw [UInt32.toNat_ofNat']
  exact Nat.mod_eq_of_lt (by omega)

theorem transCmp_compareIds : Std.TransCmp compareIds :=
  transCmp_on inferInstance fun pair : UInt32 × Bytes => pair.1.toNat

/-- The chunks stand in the order of their keys. -/
theorem pairwise_chunksOf (h : data.length < 2 ^ 32) :
    (chunksOf data).Pairwise fun a b => compareIds a b = .lt := by
  rw [chunksOf, List.pairwise_map]
  apply List.Pairwise.imp_of_mem _ (List.pairwise_lt_range)
  intro i j hi hj hlt
  rw [compareIds, toNat_of_lt_divCeil h (List.mem_range.mp hi),
    toNat_of_lt_divCeil h (List.mem_range.mp hj)]
  exact Nat.compare_eq_lt.mpr hlt

theorem detoastChunks_perm (h : data.length < 2 ^ 32) {chunks : List (UInt32 × Bytes)}
    (hperm : chunks.Perm (chunksOf data)) :
    detoastChunks chunks (UInt32.ofNat data.length) = data := by
  have hcmp := transCmp_compareIds
  have hsize : (UInt32.ofNat data.length).toNat = data.length := by
    rw [UInt32.toNat_ofNat']
    exact Nat.mod_eq_of_lt h
  have hbytes : (chunksOf data).flatMap Prod.snd = data := by
    rw [chunksOf, List.flatMap_map]
    exact (flatMap_chunkAt data _).trans (List.take_of_length_le (le_divCeil_mul _ (by decide)))
  rw [detoastChunks, sortBy_eq_of_perm hperm (pairwise_chunksOf h), hbytes, hsize,
    List.take_length]

theorem mapM_eq_some_map {α β : Type} {f : α → Option β} {g : α → β} {l : List α}
    (h : ∀ a ∈ l, f a = some (g a)) : l.mapM f = some (l.map g) := by
  induction l with
  | nil => rfl
  | cons a l ih =>
      rw [List.mapM_cons, h a List.mem_cons_self, ih fun b hb => h b (List.mem_cons_of_mem _ hb)]
      rfl

/-- Every chunk is there. -/
theorem mapM_chunkData (h : data.length < 2 ^ 32) :
    ((List.range (divCeil data.length toastMaxChunkSize)).map UInt32.ofNat).mapM
      (fun id => (chunkData data id.toNat).map (id, ·)) = some (chunksOf data) := by
  rw [List.mapM_map]
  apply mapM_eq_some_map
  intro i hi
  rw [List.mem_range] at hi
  rw [Function.comp_apply, toNat_of_lt_divCeil h hi,
    chunkData_eq ((lt_divCeil_iff (by decide)).mp hi)]
  rfl

/-- The chunks of a long value are all there, and any order of them gives the value back. -/
theorem toast_round_trip (data : Bytes) (relOid : Oid) (hlong : 2040 < data.length)
    (hlen : data.length < 2 ^ 32) :
    ∃ pointer chunks, maybeToast data relOid = some pointer ∧
      pointer.chunkIds.mapM (fun i => (chunkData data i.toNat).map (i, ·)) = some chunks ∧
      (∀ chunk ∈ chunks, chunk.2 ≠ []) ∧
      ∀ permuted : List (UInt32 × Bytes), permuted.Perm chunks →
        detoastChunks permuted pointer.rawSize = data := by
  have hthreshold : ¬data.length ≤ toastThreshold := Nat.not_le_of_lt hlong
  refine ⟨_, chunksOf data, if_neg hthreshold, ?_, ?_, ?_⟩
  · exact mapM_chunkData hlen
  · intro chunk hchunk
    obtain ⟨i, hi, rfl⟩ := List.mem_map.mp hchunk
    exact chunkAt_ne_nil ((lt_divCeil_iff (by decide)).mp (List.mem_range.mp hi))
  · exact fun permuted hperm => detoastChunks_perm hlen hperm

theorem toast_round_trip_long :
    ∃ pointer chunks, maybeToast (List.replicate 4000 7) ⟨1⟩ = some pointer ∧
      pointer.chunkIds.mapM
        (fun i => (chunkData (List.replicate 4000 7) i.toNat).map (i, ·)) = some chunks ∧
      (∀ chunk ∈ chunks, chunk.2 ≠ []) ∧
      ∀ permuted : List (UInt32 × Bytes), permuted.Perm chunks →
        detoastChunks permuted pointer.rawSize = List.replicate 4000 7 := by
  have hlength : (List.replicate 4000 (7 : UInt8)).length = 4000 := List.length_replicate
  exact toast_round_trip (List.replicate 4000 7) ⟨1⟩ (by rw [hlength]; decide)
    (by rw [hlength]; decide)

end RoundTrip

end PostgressRs.Storage.Toast
