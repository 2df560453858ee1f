import Mathlib.Algebra.Group.Nat.Defs
import Mathlib.Logic.Function.Iterate

/-!
Linear feedback shift registers that shift towards bit 0, fed with chunks of a
few bits at a time.
-/

namespace PostgressRs.Lib.ShiftRegister

variable {w k : Nat} (poly : BitVec w)

/-- One shift.  A set bit that falls out is fed back through `poly`. -/
def clock (x : BitVec w) : BitVec w :=
  if x.getLsbD 0 then x >>> 1 ^^^ poly else x >>> 1

theorem clock_of_even {x : BitVec w} (h : x.getLsbD 0 = false) : clock poly x = x >>> 1 := by
  rw [clock, h, if_neg Bool.false_ne_true]

/-- Shifts distribute over exclusive or. -/
theorem clock_xor (x y : BitVec w) : clock poly (x ^^^ y) = clock poly x ^^^ clock poly y := by
  have hcancel : x >>> 1 ^^^ poly ^^^ (y >>> 1 ^^^ poly) = x >>> 1 ^^^ y >>> 1 := by
    calc
      x >>> 1 ^^^ poly ^^^ (y >>> 1 ^^^ poly)
          = x >>> 1 ^^^ y >>> 1 ^^^ (poly ^^^ poly) := by ac_rfl
      _ = x >>> 1 ^^^ y >>> 1 := by rw [BitVec.xor_self, BitVec.xor_zero]
  simp only [clock, BitVec.getLsbD_xor, BitVec.ushiftRight_xor_distrib]
  cases hx : x.getLsbD 0 <;> cases hy : y.getLsbD 0
  · rfl
  · simp only [Bool.false_xor, if_true, Bool.false_eq_true, if_false]
    ac_rfl
  · simp only [Bool.true_xor, Bool.not_false, if_true, Bool.false_eq_true, if_false]
    ac_rfl
  · simpa using hcancel.symm

theorem iterate_clock_xor (n : Nat) (x y : BitVec w) :
    (clock poly)^[n] (x ^^^ y) = (clock poly)^[n] x ^^^ (clock poly)^[n] y := by
  induction n generalizing x y with
  | zero => rfl
  | succ n ih => simp only [Function.iterate_succ_apply, clock_xor, ih]

theorem msb_ushiftRight_one (x : BitVec w) : (x >>> 1).msb = false := by
  rw [BitVec.msb_eq_getLsbD_last, BitVec.getLsbD_ushiftRight]
  apply BitVec.getLsbD_of_ge
  omega

/-- With the top bit of `poly` set, the top bit of the new state tells which bit
fell out, so no two states have one successor. -/
theorem clock_injective (hpoly : poly.msb = true) : Function.Injective (clock poly) := by
  intro x y h
  have hmsb : ∀ z : BitVec w, (clock poly z).msb = z.getLsbD 0 := by
    intro z
    unfold clock
    cases hz : z.getLsbD 0 with
    | true => rw [if_pos rfl, BitVec.msb_xor, hpoly, msb_ushiftRight_one, Bool.false_xor]
    | false => rw [if_neg Bool.false_ne_true, msb_ushiftRight_one]
  have hlow : x.getLsbD 0 = y.getLsbD 0 := by rw [← hmsb x, ← hmsb y, h]
  have hshift : x >>> 1 = y >>> 1 := by
    unfold clock at h
    rw [hlow] at h
    cases hy : y.getLsbD 0 with
    | true =>
        rw [hy, if_pos rfl, if_pos rfl] at h
        exact (BitVec.xor_left_inj poly).mp h
    | false =>
        rw [hy, if_neg Bool.false_ne_true, if_neg Bool.false_ne_true] at h
        exact h
  apply BitVec.eq_of_getLsbD_eq
  intro i hi
  cases i with
  | zero => exact hlow
  | succ i =>
      have hbit := congrArg (fun z : BitVec w => z.getLsbD i) hshift
      simpa only [BitVec.getLsbD_ushiftRight, Nat.add_comm 1 i] using hbit

/-- The bits of `x` from position `n` on are clear. -/
def ClearFrom (n : Nat) (x : BitVec w) : Prop := ∀ i, n ≤ i → x.getLsbD i = false

theorem clock_shiftLeft {n : Nat} {x : BitVec w} (h : ClearFrom (w - (n + 1)) x) :
    clock poly (x <<< (n + 1)) = x <<< n := by
  have hlow : (x <<< (n + 1)).getLsbD 0 = false := by simp
  rw [clock_of_even poly hlow]
  apply BitVec.eq_of_getLsbD_eq
  intro i hi
  have hsub : 1 + i - (n + 1) = i - n := by omega
  simp only [BitVec.getLsbD_ushiftRight, BitVec.getLsbD_shiftLeft, hsub]
  by_cases htop : 1 + i < w
  · have hlt : 1 + i < n + 1 ↔ i < n := by omega
    simp [hi, htop, hlt]
  · have hclear : x.getLsbD (i - n) = false := h _ (by omega)
    simp [hclear]

/-- A state put `n` places up comes down again in `n` shifts, for nothing falls
out on the way. -/
theorem iterate_clock_shiftLeft {n : Nat} {x : BitVec w} (h : ClearFrom (w - n) x) :
    (clock poly)^[n] (x <<< n) = x := by
  induction n with
  | zero => simp
  | succ n ih =>
      have hclear : ClearFrom (w - n) x := by
        intro i hi
        exact h i (by omega)
      rw [Function.iterate_succ_apply, clock_shiftLeft poly h, ih hclear]

/-- A chunk enters at the low end and is shifted through. -/
def absorb (x : BitVec w) (chunk : BitVec k) : BitVec w :=
  (clock poly)^[k] (x ^^^ chunk.setWidth w)

/-- The chunks of a window beside each other, the first one lowest. -/
def pack : List (BitVec k) → BitVec w
  | [] => 0
  | chunk :: chunks => chunk.setWidth w ^^^ pack chunks <<< k

theorem getLsbD_pack_cons (chunk : BitVec k) (chunks : List (BitVec k)) (i : Nat) :
    (pack (chunk :: chunks) : BitVec w).getLsbD i =
      (decide (i < w) &&
        if i < k then chunk.getLsbD i else (pack chunks : BitVec w).getLsbD (i - k)) := by
  rw [pack, BitVec.getLsbD_xor, BitVec.getLsbD_setWidth, BitVec.getLsbD_shiftLeft]
  by_cases hi : i < k
  · simp [hi]
  · have hclear : chunk.getLsbD i = false := BitVec.getLsbD_of_ge chunk i (by omega)
    simp [hi, hclear]

theorem clearFrom_pack (chunks : List (BitVec k)) :
    ClearFrom (k * chunks.length) (pack chunks : BitVec w) := by
  induction chunks with
  | nil =>
      intro i _
      exact BitVec.getLsbD_zero
  | cons chunk chunks ih =>
      intro i hi
      rw [List.length_cons, Nat.mul_succ] at hi
      have hk : ¬ i < k := by omega
      rw [getLsbD_pack_cons, if_neg hk, ih (i - k) (by omega), Bool.and_false]

/-- As long as the window fits into the register, absorbing it chunk by chunk is
absorbing it at once. -/
theorem foldl_absorb {chunks : List (BitVec k)} (h : k * chunks.length ≤ w) (x : BitVec w) :
    chunks.foldl (absorb poly) x = (clock poly)^[k * chunks.length] (x ^^^ pack chunks) := by
  induction chunks generalizing x with
  | nil => simp [pack]
  | cons chunk chunks ih =>
      rw [List.length_cons, Nat.mul_succ] at h ⊢
      have hclear : ClearFrom (w - k) (pack chunks : BitVec w) := by
        intro i hi
        exact clearFrom_pack chunks i (by omega)
      have hstep : absorb poly x chunk ^^^ pack chunks =
          (clock poly)^[k] (x ^^^ pack (chunk :: chunks)) := by
        rw [absorb, pack, ← BitVec.xor_assoc, iterate_clock_xor poly k (x ^^^ chunk.setWidth w),
          iterate_clock_shiftLeft poly hclear]
      rw [List.foldl_cons, ih (by omega), hstep, ← Function.iterate_add_apply]

/-- Windows that fit into the register are told apart by their packed form. -/
theorem pack_injective {chunks chunks' : List (BitVec k)}
    (hlen : chunks.length = chunks'.length) (hfit : k * chunks.length ≤ w)
    (h : (pack chunks : BitVec w) = pack chunks') : chunks = chunks' := by
  induction chunks generalizing chunks' with
  | nil =>
      cases chunks' with
      | nil => rfl
      | cons _ _ => cases hlen
  | cons chunk chunks ih =>
      cases chunks' with
      | nil => cases hlen
      | cons chunk' chunks' =>
          rw [List.length_cons, List.length_cons, Nat.succ_inj] at hlen
          rw [List.length_cons, Nat.mul_succ] at hfit
          have hbits : ∀ i, (pack (chunk :: chunks) : BitVec w).getLsbD i =
              (pack (chunk' :: chunks') : BitVec w).getLsbD i := fun i => by rw [h]
          have hhead : chunk = chunk' := by
            apply BitVec.eq_of_getLsbD_eq
            intro i hi
            have hw : i < w := by omega
            have hbit := hbits i
            rw [getLsbD_pack_cons, getLsbD_pack_cons, if_pos hi, if_pos hi] at hbit
            simpa only [hw, decide_true, Bool.true_and] using hbit
          have htail : (pack chunks : BitVec w) = pack chunks' := by
            apply BitVec.eq_of_getLsbD_eq
            intro i _
            by_cases hi : i + k < w
            · have hk : ¬ i + k < k := by omega
              have hbit := hbits (i + k)
              rw [getLsbD_pack_cons, getLsbD_pack_cons, if_neg hk, if_neg hk] at hbit
              simpa only [hi, decide_true, Bool.true_and, Nat.add_sub_cancel] using hbit
            · have hclear : k * chunks.length ≤ i := by omega
              rw [clearFrom_pack chunks i hclear, clearFrom_pack chunks' i (hlen ▸ hclear)]
          rw [hhead, ih hlen (by omega) htail]

theorem absorb_injective (hpoly : poly.msb = true) (chunk : BitVec k) :
    Function.Injective fun x => absorb poly x chunk := by
  intro x y h
  have hxor := (clock_injective poly hpoly).iterate k h
  exact (BitVec.xor_left_inj _).mp hxor

theorem foldl_absorb_injective (hpoly : poly.msb = true) (chunks : List (BitVec k)) :
    Function.Injective fun x => chunks.foldl (absorb poly) x := by
  induction chunks with
  | nil => exact fun _ _ h => h
  | cons chunk chunks ih =>
      intro x y h
      exact absorb_injective poly hpoly chunk (ih h)

/-- Messages that differ in one window no wider than the register leave it in
different states, whatever follows the window. -/
theorem foldl_absorb_ne (hpoly : poly.msb = true) {window window' : List (BitVec k)}
    (hlen : window.length = window'.length) (hfit : k * window.length ≤ w)
    (hne : window ≠ window') (before after : List (BitVec k)) (x : BitVec w) :
    (before ++ (window ++ after)).foldl (absorb poly) x ≠
      (before ++ (window' ++ after)).foldl (absorb poly) x := by
  intro h
  rw [List.foldl_append, List.foldl_append, List.foldl_append, List.foldl_append] at h
  have hfit' : k * window'.length ≤ w := hlen ▸ hfit
  have hstates := foldl_absorb_injective poly hpoly after h
  rw [foldl_absorb poly hfit, foldl_absorb poly hfit', ← hlen] at hstates
  have hpacked := (clock_injective poly hpoly).iterate (k * window.length) hstates
  exact hne (pack_injective hlen hfit ((BitVec.xor_right_inj _).mp hpacked))

end PostgressRs.Lib.ShiftRegister
