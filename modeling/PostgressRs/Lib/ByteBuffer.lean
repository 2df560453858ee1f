import Mathlib.Algebra.Group.Nat.Defs
import Mathlib.Tactic.Ring

/-!
Byte strings as Rust's `Vec<u8>` and `[u8]` handle them: fixed-width
little-endian integers, subslices that panic outside the buffer, and
`copy_from_slice`.  A `none` is always a panic.
-/

namespace PostgressRs.Lib.ByteBuffer

/-- A byte buffer. -/
abbrev Bytes := List UInt8

/-- The `width` little-endian bytes of `n`; higher bits are dropped. -/
def toLeBytes : Nat → Nat → Bytes
  | 0, _ => []
  | width + 1, n => UInt8.ofNat n :: toLeBytes width (n / 256)

/-- The number spelled by little-endian bytes. -/
def fromLeBytes : Bytes → Nat
  | [] => 0
  | byte :: bytes => byte.toNat + 256 * fromLeBytes bytes

@[simp] theorem toLeBytes_length (width n : Nat) : (toLeBytes width n).length = width := by
  induction width generalizing n with
  | zero => rfl
  | succ width ih => simp [toLeBytes, ih]

theorem fromLeBytes_toLeBytes (width n : Nat) (hn : n < 256 ^ width) :
    fromLeBytes (toLeBytes width n) = n := by
  induction width generalizing n with
  | zero =>
      have hzero : n = 0 := by simpa using hn
      subst n
      rfl
  | succ width ih =>
      have hdiv : n / 256 < 256 ^ width := by
        rw [Nat.div_lt_iff_lt_mul (by decide)]
        simpa [pow_succ] using hn
      simp only [toLeBytes, fromLeBytes, ih _ hdiv, UInt8.toNat_ofNat']
      omega

/-- The `width` big-endian bytes of `n`. -/
def toBeBytes (width n : Nat) : Bytes := (toLeBytes width n).reverse

/-- The number spelled by big-endian bytes. -/
def fromBeBytes (bytes : Bytes) : Nat := fromLeBytes bytes.reverse

@[simp] theorem toBeBytes_length (width n : Nat) : (toBeBytes width n).length = width := by
  rw [toBeBytes, List.length_reverse, toLeBytes_length]

theorem fromBeBytes_toBeBytes (width n : Nat) (hn : n < 256 ^ width) :
    fromBeBytes (toBeBytes width n) = n := by
  rw [fromBeBytes, toBeBytes, List.reverse_reverse, fromLeBytes_toLeBytes width n hn]

theorem fromLeBytes_lt (bytes : Bytes) : fromLeBytes bytes < 256 ^ bytes.length := by
  induction bytes with
  | nil => exact Nat.one_pos
  | cons byte bytes ih =>
      have hbyte := byte.toNat_lt
      rw [fromLeBytes, List.length_cons, pow_succ]
      omega

theorem fromBeBytes_lt (bytes : Bytes) : fromBeBytes bytes < 256 ^ bytes.length := by
  have h := fromLeBytes_lt bytes.reverse
  rwa [List.length_reverse] at h

theorem toLeBytes_fromLeBytes (bytes : Bytes) :
    toLeBytes bytes.length (fromLeBytes bytes) = bytes := by
  induction bytes with
  | nil => rfl
  | cons byte bytes ih =>
      have hbyte := byte.toNat_lt
      have hdiv : (byte.toNat + 256 * fromLeBytes bytes) / 256 = fromLeBytes bytes := by omega
      rw [List.length_cons, fromLeBytes, toLeBytes, hdiv, ih]
      congr 1
      apply UInt8.toNat_inj.mp
      rw [UInt8.toNat_ofNat']
      omega

theorem toBeBytes_fromBeBytes (bytes : Bytes) :
    toBeBytes bytes.length (fromBeBytes bytes) = bytes := by
  have h := toLeBytes_fromLeBytes bytes.reverse
  rw [List.length_reverse] at h
  rw [toBeBytes, fromBeBytes, h, List.reverse_reverse]

/-- `a - b` on `usize`: underflow panics. -/
def checkedSub (a b : Nat) : Option Nat :=
  if b ≤ a then some (a - b) else none

theorem checkedSub_eq_some {a b c : Nat} : checkedSub a b = some c ↔ b ≤ a ∧ c = a - b := by
  unfold checkedSub
  split <;> simp_all [eq_comm]

theorem checkedSub_eq_none {a b : Nat} : checkedSub a b = none ↔ a < b := by
  unfold checkedSub
  split <;> simp_all

section Slices

variable {α : Type}

/-- `buf[start..stop]`. -/
def slice (buf : List α) (start stop : Nat) : Option (List α) :=
  if start ≤ stop ∧ stop ≤ buf.length then some ((buf.drop start).take (stop - start)) else none

/-- `buf[offset..offset + src.len()].copy_from_slice(src)`. -/
def copyFromSlice (buf : List α) (offset : Nat) (src : List α) : Option (List α) :=
  if offset + src.length ≤ buf.length then
    some (buf.take offset ++ src ++ buf.drop (offset + src.length))
  else none

/-- A window of a buffer written as a concatenation is its middle part. -/
theorem slice_append (before window after : List α) (start stop : Nat)
    (hstart : start = before.length) (hstop : stop = before.length + window.length) :
    slice (before ++ window ++ after) start stop = some window := by
  subst hstart hstop
  simp [slice, List.append_assoc]

/-- A window past the front part of a buffer is a window of the rest. -/
theorem slice_append_right (front rest : List α) (start stop : Nat)
    (hfront : front.length ≤ start) (hle : start ≤ stop) :
    slice (front ++ rest) start stop =
      slice rest (start - front.length) (stop - front.length) := by
  have hcond : (start ≤ stop ∧ stop ≤ (front ++ rest).length) ↔
      (start - front.length ≤ stop - front.length ∧ stop - front.length ≤ rest.length) := by
    simp only [List.length_append]
    omega
  have hsub : stop - front.length - (start - front.length) = stop - start := by omega
  have hdrop : (front ++ rest).drop start = rest.drop (start - front.length) := by
    rw [List.drop_append, List.drop_eq_nil_of_le hfront, List.nil_append]
  simp only [slice, hcond, hdrop, hsub]

theorem slice_prefix (window after : List α) (stop : Nat) (hstop : stop = window.length) :
    slice (window ++ after) 0 stop = some window := by
  simpa using slice_append [] window after 0 stop rfl (by simpa using hstop)

/-- Overwriting a window of a buffer written as a concatenation replaces its
middle part. -/
theorem copyFromSlice_append (before window after src : List α) (offset : Nat)
    (hoffset : offset = before.length) (hlen : src.length = window.length) :
    copyFromSlice (before ++ window ++ after) offset src = some (before ++ src ++ after) := by
  subst hoffset
  rw [copyFromSlice, if_pos (by simp [hlen])]
  have hdrop : (before ++ (window ++ after)).drop (before.length + window.length) = after := by
    rw [← List.append_assoc, ← List.length_append, List.drop_left]
  simp [hlen, hdrop]

theorem copyFromSlice_length {buf src result : List α} {offset : Nat}
    (h : copyFromSlice buf offset src = some result) : result.length = buf.length := by
  unfold copyFromSlice at h
  split at h
  · rename_i hfits
    cases h
    simp only [List.length_append, List.length_take, List.length_drop]
    omega
  · simp at h

theorem slice_append_left {front window : List α} {start stop : Nat}
    (h : slice front start stop = some window) (rest : List α) :
    slice (front ++ rest) start stop = some window := by
  unfold slice at h ⊢
  split at h
  · rename_i hbounds
    rw [if_pos (by rw [List.length_append]; omega), ← h,
      List.drop_append_of_le_length (by omega), List.take_append_of_le_length]
    rw [List.length_drop]
    omega
  · cases h

/-- What was copied is read back. -/
theorem slice_copyFromSlice_self {buf src result : List α} {offset : Nat}
    (h : copyFromSlice buf offset src = some result) :
    slice result offset (offset + src.length) = some src := by
  unfold copyFromSlice at h
  split at h
  · rename_i hfits
    cases h
    have hlen : (buf.take offset).length = offset := by
      rw [List.length_take]
      omega
    exact slice_append _ _ _ _ _ hlen.symm (by rw [hlen])
  · cases h

/-- A window apart from what was copied is as before. -/
theorem slice_copyFromSlice_of_disjoint {buf src result : List α} {offset start stop : Nat}
    (h : copyFromSlice buf offset src = some result)
    (hapart : stop ≤ offset ∨ offset + src.length ≤ start) :
    slice result start stop = slice buf start stop := by
  have hlen := copyFromSlice_length h
  unfold copyFromSlice at h
  split at h
  · rename_i hfits
    cases h
    unfold slice
    rw [hlen]
    split
    · rename_i hbounds
      congr 1
      apply List.ext_getElem?
      intro i
      simp only [List.getElem?_take, List.getElem?_drop]
      split
      · rename_i hi
        rcases hapart with hbefore | hafter
        · rw [List.append_assoc, List.getElem?_append_left (by rw [List.length_take]; omega),
            List.getElem?_take_of_lt (by omega)]
        · rw [List.getElem?_append_right
            (by simp only [List.length_append, List.length_take]; omega), List.getElem?_drop]
          congr 1
          simp only [List.length_append, List.length_take]
          omega
      · rfl
    · rfl
  · cases h

end Slices

/-- `hash.wrapping_mul(31).wrapping_add(byte)` over all bytes. -/
def rollingHash (bytes : Bytes) : UInt32 :=
  bytes.foldl (fun hash byte => hash * 31 + byte.toUInt32) 0

end PostgressRs.Lib.ByteBuffer
