import PostgressRs.Executor.WindowValues
import PostgressRs.Lib.EvenBuckets

/-!
`NTILE` spreads the rows evenly over its buckets.
-/

namespace PostgressRs.Executor.NtileBuckets

open PostgressRs.Executor.Evaluation
open PostgressRs.Executor.WindowFunctions
open PostgressRs.Executor.WindowValues
open PostgressRs.Lib.EvenBuckets
open PostgressRs.Sql.Ast
open PostgressRs.Types

section Buckets

variable [Scalars] {desc : Option TupleDesc} {rows : List (List String)} {colIdx : Nat}
  {call : FunctionCall Expr} {spec : WindowSpec Expr} {n : Nat}

theorem valuesInOrder_ntile :
    valuesInOrder desc rows colIdx "NTILE" call spec = some (ntile desc call rows.length) := by
  rw [valuesInOrder]
  split
  · rfl
  · rw [windowValues, List.length_map, (perm_sortedIndexed _ _).length_eq, List.length_zipIdx]

theorem ntile_eq {count : Nat} (hn : usizeArgument desc call 0 1 = n)
    (hfits : count * n < 2 ^ 64) :
    ntile desc call count = (List.range count).map fun i => toString (bucketOf n count i + 1) := by
  rw [ntile, hn]
  apply List.map_congr_left
  intro i hi
  have hle : i * n ≤ count * n := Nat.mul_le_mul_right n (List.mem_range.mp hi).le
  rw [Nat.mod_eq_of_lt (hle.trans_lt hfits), bucketOf]

/-- The buckets are in range, come one after another in the order of the window, and differ
in size by at most one. -/
theorem ntile_balanced (hn : usizeArgument desc call 0 1 = n) (hpos : 1 ≤ n)
    (hrows : 1 ≤ rows.length) (hfits : rows.length * n < 2 ^ 64) :
    ∃ bucket : Nat → Nat,
      (∀ i k, (windowOrder desc spec rows)[i]? = some k →
        assignedValue desc rows colIdx "NTILE" call spec k = some (toString (bucket i))) ∧
      (∀ i < rows.length, 1 ≤ bucket i ∧ bucket i ≤ n) ∧
      (∀ i j, i ≤ j → j < rows.length → bucket i ≤ bucket j) ∧
      ∀ b c, 1 ≤ b → b ≤ n → 1 ≤ c → c ≤ n →
        ((Finset.range rows.length).filter fun i => bucket i = b).card ≤
          ((Finset.range rows.length).filter fun i => bucket i = c).card + 1 := by
  refine ⟨fun i => bucketOf n rows.length i + 1, ?_, ?_, ?_, ?_⟩
  · intro i k hk
    have hi := (List.getElem?_eq_some_iff.mp hk).1
    rw [length_windowOrder] at hi
    rw [assignedValue_eq valuesInOrder_ntile hk, ntile_eq hn hfits, List.getElem?_map,
      List.getElem?_range hi, Option.map_some]
  · intro i hi
    exact ⟨Nat.le_add_left 1 _, bucketOf_lt hpos hi⟩
  · intro i j hij _
    exact Nat.succ_le_succ (bucketOf_mono hij)
  · intro b c hb hbn hc hcn
    have hsize : ∀ a, 1 ≤ a →
        ((Finset.range rows.length).filter fun i => bucketOf n rows.length i + 1 = a).card =
          bucketSize n rows.length (a - 1) := by
      intro a ha
      rw [bucketSize]
      congr 1
      apply Finset.filter_congr
      intro i _
      omega
    rw [hsize b hb, hsize c hc]
    exact bucketSize_le hpos hrows (by omega) (by omega)

end Buckets

section Rows

attribute [local instance] wholeNumbers

def twoTiles : FunctionCall Expr :=
  ⟨.single "ntile", [.expr (.literal (.number "2"))], none, none⟩

/-- Three rows in two buckets. -/
theorem ntile_balanced_three :
    ∃ bucket : Nat → Nat,
      (∀ i < 3, assignedValue none [["a"], ["b"], ["c"]] 0 "NTILE" twoTiles ⟨[], [], none⟩ i =
        some (toString (bucket i))) ∧ ∀ i < 3, 1 ≤ bucket i ∧ bucket i ≤ 2 := by
  have hn : usizeArgument none twoTiles 0 1 = 2 := by decide +kernel
  obtain ⟨bucket, hassigned, hrange, -⟩ :=
    @ntile_balanced wholeNumbers none [["a"], ["b"], ["c"]] 0 twoTiles ⟨[], [], none⟩ 2 hn
      (by decide) (by decide) (by decide)
  refine ⟨bucket, ?_, hrange⟩
  intro i hi
  apply hassigned i i
  rw [windowOrder_of_isEmpty rfl]
  exact List.getElem?_range hi

end Rows

end PostgressRs.Executor.NtileBuckets
