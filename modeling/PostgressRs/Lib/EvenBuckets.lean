import Mathlib.Order.Interval.Finset.Nat

/-!
Places `0` to `count - 1` spread over `n` buckets, place `i` into bucket `i * n / count`.
-/

namespace PostgressRs.Lib.EvenBuckets

section Buckets

variable {n count : Nat}

def bucketOf (n count i : Nat) : Nat := i * n / count

/-- The first place of a bucket. -/
def bucketStart (n count b : Nat) : Nat := (b * count + (n - 1)) / n

theorem bucketOf_lt (hn : 0 < n) {i : Nat} (hi : i < count) : bucketOf n count i < n := by
  apply Nat.div_lt_of_lt_mul
  exact Nat.mul_lt_mul_of_pos_right hi hn

theorem bucketOf_mono {i j : Nat} (h : i ≤ j) : bucketOf n count i ≤ bucketOf n count j :=
  Nat.div_le_div_right (Nat.mul_le_mul_right n h)

theorem bucketStart_le_iff (hn : 0 < n) {b i : Nat} :
    bucketStart n count b ≤ i ↔ b * count ≤ i * n := by
  rw [bucketStart, ← Nat.lt_succ_iff, Nat.div_lt_iff_lt_mul hn, Nat.succ_mul]
  omega

theorem bucketOf_eq_iff (hn : 0 < n) (hcount : 0 < count) {b i : Nat} :
    bucketOf n count i = b ↔ bucketStart n count b ≤ i ∧ i < bucketStart n count (b + 1) := by
  rw [← not_le, bucketStart_le_iff hn, bucketStart_le_iff hn, not_le, bucketOf,
    Nat.div_eq_iff hcount, Nat.succ_mul]
  omega

theorem bucketStart_last (hn : 0 < n) : bucketStart n count n = count := by
  rw [bucketStart, Nat.mul_add_div hn, Nat.div_eq_of_lt (by omega), Nat.add_zero]

theorem bucketStart_mono {b c : Nat} (h : b ≤ c) : bucketStart n count b ≤ bucketStart n count c :=
  Nat.div_le_div_right (Nat.add_le_add_right (Nat.mul_le_mul_right count h) _)

/-- A bucket takes the rounded down or the rounded up share. -/
theorem bucketStart_succ (hn : 0 < n) (b : Nat) :
    bucketStart n count b + count / n ≤ bucketStart n count (b + 1) ∧
      bucketStart n count (b + 1) ≤ bucketStart n count b + count / n + 1 := by
  have hsucc : bucketStart n count (b + 1) = (b * count + (n - 1) + count) / n := by
    rw [bucketStart, Nat.succ_mul]
    congr 1
    omega
  rw [hsucc, Nat.add_div hn, bucketStart]
  split <;> omega

def bucketSize (n count b : Nat) : Nat :=
  ((Finset.range count).filter fun i => bucketOf n count i = b).card

theorem bucketSize_eq (hn : 0 < n) (hcount : 0 < count) {b : Nat} (hb : b < n) :
    bucketSize n count b = bucketStart n count (b + 1) - bucketStart n count b := by
  have hbucket : ((Finset.range count).filter fun i => bucketOf n count i = b) =
      Finset.Ico (bucketStart n count b) (bucketStart n count (b + 1)) := by
    ext i
    rw [Finset.mem_filter, Finset.mem_range, bucketOf_eq_iff hn hcount, Finset.mem_Ico]
    constructor
    · intro h
      exact h.2
    · intro h
      have hlast : bucketStart n count (b + 1) ≤ bucketStart n count n := bucketStart_mono hb
      rw [bucketStart_last hn] at hlast
      exact ⟨h.2.trans_le hlast, h⟩
  rw [bucketSize, hbucket, Nat.card_Ico]

/-- The sizes of two buckets differ by at most one. -/
theorem bucketSize_le (hn : 0 < n) (hcount : 0 < count) {b c : Nat} (hb : b < n) (hc : c < n) :
    bucketSize n count b ≤ bucketSize n count c + 1 := by
  have hb' := @bucketStart_succ n count hn b
  have hc' := @bucketStart_succ n count hn c
  rw [bucketSize_eq hn hcount hb, bucketSize_eq hn hcount hc]
  omega

end Buckets

end PostgressRs.Lib.EvenBuckets
