import Mathlib.Data.Finset.Basic
import Mathlib.Logic.Relation

/-!
What a depth-first search for a cycle knows: no cycle goes through the vertices it has
left, and those on its path reach the vertex it is at.
-/

namespace PostgressRs.Lib.DepthFirst

open Relation

variable {α : Type} {edge : α → α → Prop}

/-- The edge is a part of a cycle. -/
def CycleEdge (edge : α → α → Prop) (x y : α) : Prop :=
  edge x y ∧ ReflTransGen edge y x

theorem CycleEdge.cycle {x y : α} (h : CycleEdge edge x y) : TransGen edge x x :=
  TransGen.head' h.1 h.2

/-- No edge leads out of the vertices, and no cycle goes through them. -/
structure Finished (edge : α → α → Prop) (done : Finset α) : Prop where
  closed : ∀ x ∈ done, ∀ y, edge x y → y ∈ done
  acyclic : ∀ x ∈ done, ¬TransGen edge x x

theorem finished_empty : Finished edge ∅ where
  closed x hx := absurd hx (Finset.notMem_empty x)
  acyclic x hx := absurd hx (Finset.notMem_empty x)

variable {done : Finset α}

theorem Finished.reaches (h : Finished edge done) {x y : α} (hx : x ∈ done)
    (hreaches : TransGen edge x y) : y ∈ done := by
  induction hreaches with
  | single hedge => exact h.closed x hx _ hedge
  | tail _ hedge ih => exact h.closed _ ih _ hedge

/-- A vertex is left when all that follows it is. -/
theorem Finished.insert [DecidableEq α] (h : Finished edge done) {x : α} (hx : x ∉ done)
    (hnext : ∀ y, edge x y → y ∈ done) : Finished edge (insert x done) where
  closed y hy z hedge := by
    rcases Finset.mem_insert.mp hy with rfl | hy
    · exact Finset.mem_insert_of_mem (hnext z hedge)
    · exact Finset.mem_insert_of_mem (h.closed y hy z hedge)
  acyclic y hy hcycle := by
    rcases Finset.mem_insert.mp hy with rfl | hy
    · obtain ⟨z, hedge, hback⟩ := TransGen.head'_iff.mp hcycle
      have hz := hnext z hedge
      rcases reflTransGen_iff_eq_or_transGen.mp hback with heq | hback
      · exact hx (heq ▸ hz)
      · exact hx (h.reaches hz hback)
    · exact h.acyclic y hy hcycle

/-- There is no cycle when every vertex with an edge is left. -/
theorem Finished.no_cycle (h : Finished edge done) (hall : ∀ x y, edge x y → x ∈ done) (x : α) :
    ¬TransGen edge x x := by
  intro hcycle
  obtain ⟨y, hedge, -⟩ := TransGen.head'_iff.mp hcycle
  exact h.acyclic x (hall x y hedge) hcycle

end PostgressRs.Lib.DepthFirst
