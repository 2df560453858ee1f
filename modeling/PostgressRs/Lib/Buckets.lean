import Mathlib.Data.List.Perm.Basic
import Mathlib.Data.List.Flatten

/-!
Elements kept in buckets, and searches that visit only some of the buckets.
-/

namespace PostgressRs.Lib.Buckets

variable {ι α : Type}

/-- All that the buckets hold. -/
def contents (bucket : ι → List α) (keys : List ι) : List α := keys.flatMap bucket

def search (bucket : ι → List α) (visited : ι → Bool) (p : α → Bool) (keys : List ι) : List α :=
  keys.flatMap fun i => if visited i then (bucket i).filter p else []

section Searching

variable {bucket : ι → List α} {visited : ι → Bool} {p : α → Bool} {keys : List ι}

/-- The other buckets have nothing to find. -/
theorem search_eq_filter (h : ∀ i ∈ keys, ∀ a ∈ bucket i, p a → visited i) :
    search bucket visited p keys = (contents bucket keys).filter p := by
  rw [search, contents, List.filter_flatMap]
  apply List.flatMap_congr
  intro i hi
  split
  · rfl
  · symm
    rw [List.filter_eq_nil_iff]
    exact fun a ha hp => ‹¬_› (h i hi a ha hp)

theorem search_sublist :
    (search bucket visited p keys).Sublist ((contents bucket keys).filter p) := by
  rw [search, contents, List.filter_flatMap]
  apply List.Sublist.flatMap_right
  intro i _
  split
  · exact List.Sublist.refl _
  · exact List.nil_sublist _

/-- All is found exactly if no bucket with something to find is skipped. -/
theorem length_search_eq_iff :
    (search bucket visited p keys).length = ((contents bucket keys).filter p).length ↔
      ∀ i ∈ keys, ∀ a ∈ bucket i, p a → visited i := by
  constructor
  · induction keys with
    | nil => exact fun _ i hi => absurd hi List.not_mem_nil
    | cons i keys ih =>
        intro hlength
        have hsearch : search bucket visited p (i :: keys) =
            (if visited i then (bucket i).filter p else []) ++ search bucket visited p keys := rfl
        have hcontents : contents bucket (i :: keys) = bucket i ++ contents bucket keys := rfl
        have hrest := (@search_sublist _ _ bucket visited p keys).length_le
        rw [hsearch, hcontents, List.filter_append, List.length_append, List.length_append]
          at hlength
        intro j hj a ha hp
        rcases List.mem_cons.mp hj with rfl | hj
        · have hpos : 0 < ((bucket j).filter p).length :=
            List.length_pos_of_mem (List.mem_filter.mpr ⟨ha, hp⟩)
          by_contra hskipped
          rw [if_neg hskipped, List.length_nil] at hlength
          omega
        · refine ih ?_ j hj a ha hp
          have hfirst : (if visited i then (bucket i).filter p else []).length ≤
              ((bucket i).filter p).length := by
            split
            · exact Nat.le_refl _
            · exact Nat.zero_le _
          omega
  · exact fun h => congrArg List.length (search_eq_filter h)

theorem filter_search (q : α → Bool) :
    (search bucket visited p keys).filter q =
      search bucket visited (fun a => p a && q a) keys := by
  rw [search, search, List.filter_flatMap]
  apply List.flatMap_congr
  intro i _
  split
  · rw [List.filter_filter]
    exact List.filter_congr fun a _ => Bool.and_comm (q a) (p a)
  · rfl

end Searching

section Changes

variable {bucket bucket' : ι → List α} {keys : List ι}

theorem contents_congr (h : ∀ i ∈ keys, bucket i = bucket' i) :
    contents bucket keys = contents bucket' keys :=
  List.flatMap_congr h

/-- Empty buckets at the end. -/
theorem contents_append_of_empty {more : List ι} (h : ∀ i ∈ more, bucket i = []) :
    contents bucket (keys ++ more) = contents bucket keys := by
  rw [contents, List.flatMap_append, List.flatMap_eq_nil_iff.mpr h, List.append_nil]
  rfl

/-- One element more in one bucket. -/
theorem contents_cons {i : ι} {a : α} (hnodup : keys.Nodup) (hi : i ∈ keys)
    (hchanged : (bucket' i).Perm (a :: bucket i))
    (hkept : ∀ j ∈ keys, j ≠ i → bucket' j = bucket j) :
    (contents bucket' keys).Perm (a :: contents bucket keys) := by
  induction keys with
  | nil => exact absurd hi List.not_mem_nil
  | cons j keys ih =>
      obtain ⟨hj, hrest⟩ := List.nodup_cons.mp hnodup
      rcases List.mem_cons.mp hi with rfl | hi
      · have hothers : contents bucket' keys = contents bucket keys := by
          apply contents_congr
          intro k hk
          apply hkept k (List.mem_cons_of_mem _ hk)
          rintro rfl
          exact hj hk
        show (bucket' i ++ contents bucket' keys).Perm (a :: (bucket i ++ contents bucket keys))
        rw [hothers, ← List.cons_append]
        exact hchanged.append_right _
      · have hne : j ≠ i := by
          rintro rfl
          exact hj hi
        show (bucket' j ++ contents bucket' keys).Perm (a :: (bucket j ++ contents bucket keys))
        rw [hkept j List.mem_cons_self hne]
        have hmore := ih hrest hi fun k hk => hkept k (List.mem_cons_of_mem _ hk)
        exact (hmore.append_left _).trans List.perm_middle

end Changes

end PostgressRs.Lib.Buckets
