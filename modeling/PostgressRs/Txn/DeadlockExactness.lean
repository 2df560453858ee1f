import PostgressRs.Lib.DepthFirst
import PostgressRs.Txn.DeadlockDetection

/-!
Deadlock detection finds a cycle of the wait-for graph if there is one.
-/

namespace PostgressRs.Txn.DeadlockExactness

open PostgressRs.Lib.DepthFirst
open PostgressRs.Txn.DeadlockDetection
open PostgressRs.Txn.LockSafety
open PostgressRs.Txn.LockTable
open PostgressRs.Txn.TransactionTable
open PostgressRs.Types
open Relation

section Graph

/-- The first transaction has a request in the queue that conflicts with a lock of the
second one. -/
def WaitsFor (mgr : LockManager) (xid holder : TransactionId) : Prop :=
  ∃ request ∈ mgr.waitQueue, request.xid = xid ∧
    ∃ lock ∈ heldOn mgr request, lock.holder = holder ∧ holder ≠ xid ∧
      request.mode.conflictsWith lock.mode

/-- The edges of a map of blockers. -/
def Edge (waitFor : WaitFor) (xid blocker : TransactionId) : Prop :=
  blocker ∈ (waitFor.lookup xid).getD []

theorem Edge.mem {waitFor : WaitFor} {xid blocker : TransactionId} (h : Edge waitFor xid blocker) :
    xid ∈ waitFor := by
  by_contra hxid
  rw [Edge, AList.lookup_eq_none.mpr hxid] at h
  exact List.not_mem_nil h

theorem mem_blockersOf {mgr : LockManager} {request : LockRequest} {holder : TransactionId} :
    holder ∈ blockersOf mgr request ↔ ∃ lock ∈ heldOn mgr request, lock.holder = holder ∧
      holder ≠ request.xid ∧ request.mode.conflictsWith lock.mode := by
  rw [blockersOf, List.mem_map]
  constructor
  · rintro ⟨lock, hlock, rfl⟩
    obtain ⟨hheld, hconflict⟩ := List.mem_filter.mp hlock
    exact ⟨lock, hheld, rfl, of_decide_eq_true hconflict⟩
  · rintro ⟨lock, hheld, rfl, hconflict⟩
    exact ⟨lock, List.mem_filter.mpr ⟨hheld, decide_eq_true hconflict⟩, rfl⟩

theorem edge_addRequest {mgr : LockManager} {waitFor : WaitFor} {request : LockRequest}
    {xid blocker : TransactionId} :
    Edge (addRequest mgr waitFor request) xid blocker ↔
      Edge waitFor xid blocker ∨ request.xid = xid ∧ blocker ∈ blockersOf mgr request := by
  unfold Edge addRequest
  dsimp only
  split
  · rename_i hnone
    rw [hnone]
    simp
  · by_cases hxid : xid = request.xid
    · subst hxid
      rw [AList.lookup_insert, Option.getD_some, List.mem_append]
      simp
    · rw [AList.lookup_insert_ne hxid]
      simp [Ne.symm hxid]

/-- The map that is searched has the edges of the wait-for graph. -/
theorem edge_waitForGraph (mgr : LockManager) (xid blocker : TransactionId) :
    Edge (waitForGraph mgr) xid blocker ↔ WaitsFor mgr xid blocker := by
  have hfold : ∀ (queue : List LockRequest) (waitFor : WaitFor),
      Edge (queue.foldl (addRequest mgr) waitFor) xid blocker ↔
        Edge waitFor xid blocker ∨
          ∃ request ∈ queue, request.xid = xid ∧ blocker ∈ blockersOf mgr request := by
    intro queue
    induction queue with
    | nil => simp
    | cons request queue ih =>
        intro waitFor
        rw [List.foldl_cons, ih, edge_addRequest, or_assoc, List.exists_mem_cons_iff]
  rw [waitForGraph, hfold]
  have hempty : ¬Edge ∅ xid blocker := List.not_mem_nil
  rw [or_iff_right hempty]
  constructor
  · rintro ⟨request, hqueued, rfl, hblocker⟩
    exact ⟨request, hqueued, rfl, mem_blockersOf.mp hblocker⟩
  · rintro ⟨request, hqueued, rfl, hlock⟩
    exact ⟨request, hqueued, rfl, mem_blockersOf.mpr hlock⟩

end Graph

section Search

variable {waitFor : WaitFor}

/-- Between the calls of the search: `stack` is the path to `xid`, and what was visited
and is not on it is left. -/
structure Searching (waitFor : WaitFor) (stack : Finset TransactionId) (xid : TransactionId)
    (marks : Marks) : Prop where
  stack_eq : marks.stack = stack
  visited : stack ⊆ marks.visited
  reaches : ∀ y ∈ stack, ReflTransGen (Edge waitFor) y xid
  finished : Finished (Edge waitFor) (marks.visited \ stack)

/-- A cycle that is found has an edge of a cycle of the graph. -/
def FoundCycle (waitFor : WaitFor) (cycle : List TransactionId) : Prop :=
  ∃ xid blocker, cycle = [xid, blocker] ∧ CycleEdge (Edge waitFor) xid blocker

/-- What a search of some transactions leaves, with the path as it was. -/
structure Left (waitFor : WaitFor) (marks : Marks) (xids : List TransactionId) (marks' : Marks) :
    Prop where
  stack_eq : marks'.stack = marks.stack
  visited : marks.visited ⊆ marks'.visited
  finished : Finished (Edge waitFor) (marks'.visited \ marks.stack)
  mem : ∀ xid ∈ xids, xid ∈ marks'.visited \ marks.stack

def Searched (waitFor : WaitFor) (marks : Marks) (xids : List TransactionId) :
    Option (Except (List TransactionId) Marks) → Prop
  | none => True
  | some (.error cycle) => FoundCycle waitFor cycle
  | some (.ok marks') => Left waitFor marks xids marks'

theorem Left.searching {marks marks' : Marks} {stack : Finset TransactionId}
    {xid : TransactionId} {xids : List TransactionId} (h : Searching waitFor stack xid marks)
    (hleft : Left waitFor marks xids marks') : Searching waitFor stack xid marks' where
  stack_eq := hleft.stack_eq.trans h.stack_eq
  visited := h.visited.trans hleft.visited
  reaches := h.reaches
  finished := h.stack_eq ▸ hleft.finished

theorem Left.cons {marks marks' marks'' : Marks} {blocker : TransactionId}
    {blockers : List TransactionId} (hfirst : Left waitFor marks [blocker] marks')
    (hrest : Left waitFor marks' blockers marks'') :
    Left waitFor marks (blocker :: blockers) marks'' where
  stack_eq := hrest.stack_eq.trans hfirst.stack_eq
  visited := hfirst.visited.trans hrest.visited
  finished := hfirst.stack_eq ▸ hrest.finished
  mem y hy := by
    rcases List.mem_cons.mp hy with rfl | hy
    · have hmem := hfirst.mem y List.mem_cons_self
      exact Finset.sdiff_subset_sdiff hrest.visited (Finset.Subset.refl _) hmem
    · exact hfirst.stack_eq ▸ hrest.mem y hy

theorem Searching.left_nil {marks : Marks} {stack : Finset TransactionId} {xid : TransactionId}
    (h : Searching waitFor stack xid marks) : Left waitFor marks [] marks where
  stack_eq := rfl
  visited := Finset.Subset.refl _
  finished := h.stack_eq ▸ h.finished
  mem := by simp

/-- The loop over the blockers of the transaction at the end of the path. -/
theorem visitBlockers_searched
    {detect : TransactionId → Marks → Option (Except (List TransactionId) Marks)}
    {xid : TransactionId} {stack : Finset TransactionId}
    (hdetect : ∀ blocker marks, Edge waitFor xid blocker → blocker ∉ marks.visited →
      Searching waitFor stack xid marks → Searched waitFor marks [blocker] (detect blocker marks))
    (blockers : List TransactionId) (marks : Marks)
    (hedges : ∀ blocker ∈ blockers, Edge waitFor xid blocker)
    (h : Searching waitFor stack xid marks) :
    Searched waitFor marks blockers (visitBlockers detect xid blockers marks) := by
  induction blockers generalizing marks with
  | nil => exact h.left_nil
  | cons blocker blockers ih =>
      have hedge := hedges blocker List.mem_cons_self
      have hedges' : ∀ blocker' ∈ blockers, Edge waitFor xid blocker' :=
        fun blocker' hmem => hedges blocker' (List.mem_cons_of_mem _ hmem)
      -- the blocker is left, so the rest of the loop goes on from there
      have hgoes : ∀ marks', Left waitFor marks [blocker] marks' →
          Searched waitFor marks (blocker :: blockers)
            (visitBlockers detect xid blockers marks') := by
        intro marks' hleft
        have hrest := ih marks' hedges' (hleft.searching h)
        cases hvisit : visitBlockers detect xid blockers marks' with
        | none => trivial
        | some result =>
            rw [hvisit] at hrest
            cases result with
            | error cycle => exact hrest
            | ok marks'' => exact hleft.cons hrest
      rw [visitBlockers]
      split
      · rename_i hnew
        have hsearched := hdetect blocker marks hedge hnew h
        cases hresult : detect blocker marks with
        | none => trivial
        | some result =>
            rw [hresult] at hsearched
            cases result with
            | error cycle => exact hsearched
            | ok marks' => exact hgoes marks' hsearched
      · rename_i hvisited
        split
        · rename_i hstack
          rw [h.stack_eq] at hstack
          exact ⟨xid, blocker, rfl, hedge, h.reaches blocker hstack⟩
        · rename_i hstack
          refine hgoes marks ⟨rfl, Finset.Subset.refl _, h.stack_eq ▸ h.finished, ?_⟩
          intro y hy
          rw [List.mem_singleton.mp hy]
          exact Finset.mem_sdiff.mpr ⟨not_not.mp hvisited, hstack⟩

theorem Searching.enter {marks : Marks} {stack : Finset TransactionId} {xid : TransactionId}
    (hstack : marks.stack = stack) (hvisited : stack ⊆ marks.visited) (hnew : xid ∉ marks.visited)
    (hreaches : ∀ y ∈ stack, ReflTransGen (Edge waitFor) y xid)
    (hfinished : Finished (Edge waitFor) (marks.visited \ stack)) :
    Searching waitFor (insert xid stack) xid (marks.enter xid) where
  stack_eq := by rw [Marks.enter, hstack]
  visited := Finset.insert_subset_insert xid hvisited
  reaches y hy := by
    rcases Finset.mem_insert.mp hy with rfl | hy
    · exact ReflTransGen.refl
    · exact hreaches y hy
  finished := by
    have hsame : insert xid marks.visited \ insert xid stack = marks.visited \ stack := by
      rw [Finset.insert_sdiff_insert, Finset.sdiff_insert_of_notMem hnew]
    exact hsame ▸ hfinished

/-- A transaction that is not visited is left with all that it reaches. -/
theorem detectCycle_searched (fuel : Nat) (xid : TransactionId) (marks : Marks)
    (hvisited : marks.stack ⊆ marks.visited) (hnew : xid ∉ marks.visited)
    (hreaches : ∀ y ∈ marks.stack, ReflTransGen (Edge waitFor) y xid)
    (hfinished : Finished (Edge waitFor) (marks.visited \ marks.stack)) :
    Searched waitFor marks [xid] (detectCycle waitFor fuel xid marks) := by
  induction fuel generalizing xid marks with
  | zero => trivial
  | succ fuel ih =>
      have hentered := Searching.enter rfl hvisited hnew hreaches hfinished
      have hloop := @visitBlockers_searched waitFor (detectCycle waitFor fuel) _ _
        (fun blocker marks' hedge hnew' h => ih blocker marks' (h.stack_eq ▸ h.visited) hnew'
          (fun y hy => (h.reaches y (h.stack_eq ▸ hy)).tail hedge) (h.stack_eq ▸ h.finished))
        ((waitFor.lookup xid).getD []) (marks.enter xid) (fun _ hmem => hmem) hentered
      rw [detectCycle]
      cases hvisit : visitBlockers (detectCycle waitFor fuel) xid ((waitFor.lookup xid).getD [])
          (marks.enter xid) with
      | none => trivial
      | some result =>
          rw [hvisit] at hloop
          cases result with
          | error cycle => exact hloop
          | ok marks' =>
              have hxid : xid ∉ marks.stack := fun hmem => hnew (hvisited hmem)
              have hmem : xid ∈ marks'.visited := hloop.visited (Finset.mem_insert_self _ _)
              have hstack : (marks'.leave xid).stack = marks.stack := by
                rw [Marks.leave, hloop.stack_eq, Marks.enter, Finset.erase_insert hxid]
              have hleft : marks'.visited \ marks.stack =
                  insert xid (marks'.visited \ (marks.enter xid).stack) := by
                rw [Marks.enter, Finset.sdiff_insert, Finset.insert_erase]
                exact Finset.mem_sdiff.mpr ⟨hmem, hxid⟩
              have hout : xid ∉ marks'.visited \ (marks.enter xid).stack := fun hin =>
                (Finset.mem_sdiff.mp hin).2 (Finset.mem_insert_self _ _)
              refine ⟨hstack, (Finset.subset_insert _ _).trans hloop.visited, ?_, ?_⟩
              · rw [Marks.leave, hleft]
                exact hloop.finished.insert hout hloop.mem
              · intro y hy
                rw [List.mem_singleton.mp hy]
                exact Finset.mem_sdiff.mpr ⟨hmem, hxid⟩

/-- The loop passes blockers that are visited and not on the path. -/
theorem visitBlockers_passes
    {detect : TransactionId → Marks → Option (Except (List TransactionId) Marks)}
    {xid : TransactionId} {marks : Marks} {blockers : List TransactionId}
    (h : ∀ blocker ∈ blockers, blocker ∈ marks.visited ∧ blocker ∉ marks.stack) :
    visitBlockers detect xid blockers marks = some (.ok marks) := by
  induction blockers with
  | nil => rfl
  | cons blocker blockers ih =>
      obtain ⟨hvisited, hstack⟩ := h blocker List.mem_cons_self
      rw [visitBlockers, if_neg (not_not.mpr hvisited), if_neg hstack]
      exact ih fun blocker' hmem => h blocker' (List.mem_cons_of_mem _ hmem)

/-- The loop over the keys starts a search at every key, also at one that is left. -/
theorem detectCycle_left {fuel : Nat} {xid : TransactionId} {marks : Marks}
    (hstack : marks.stack = ∅) (hvisited : xid ∈ marks.visited)
    (hfinished : Finished (Edge waitFor) marks.visited) :
    Searched waitFor marks [xid] (detectCycle waitFor fuel xid marks) := by
  cases fuel with
  | zero => trivial
  | succ fuel =>
      have hsame : (marks.enter xid).leave xid = marks := by
        obtain ⟨visited, stack⟩ := marks
        cases hstack
        simp [Marks.enter, Marks.leave, Finset.insert_eq_of_mem hvisited]
      have hpasses : visitBlockers (detectCycle waitFor fuel) xid ((waitFor.lookup xid).getD [])
          (marks.enter xid) = some (.ok (marks.enter xid)) := by
        apply visitBlockers_passes
        intro blocker hblocker
        have hedge : Edge waitFor xid blocker := hblocker
        refine ⟨Finset.mem_insert_of_mem (hfinished.closed xid hvisited blocker hedge), ?_⟩
        rw [Marks.enter, hstack, Finset.mem_insert]
        rintro (rfl | hmem)
        · exact hfinished.acyclic blocker hvisited (TransGen.single hedge)
        · exact Finset.notMem_empty _ hmem
      rw [detectCycle]
      rw [hpasses]
      dsimp only
      rw [hsame]
      refine ⟨rfl, Finset.Subset.refl _, ?_, ?_⟩
      · rwa [hstack, Finset.sdiff_empty]
      · intro y hy
        rw [List.mem_singleton.mp hy, hstack, Finset.sdiff_empty]
        exact hvisited

/-- A search that ends without a cycle has left all keys. -/
theorem detectFrom_exact {fuel : Nat} (keys : List TransactionId) (marks : Marks)
    (hstack : marks.stack = ∅) (hfinished : Finished (Edge waitFor) marks.visited)
    {answer : Option (List TransactionId)} (h : detectFrom waitFor fuel keys marks = some answer) :
    match answer with
    | some cycle => FoundCycle waitFor cycle
    | none => ∃ done, Finished (Edge waitFor) done ∧ marks.visited ⊆ done ∧
            ∀ xid ∈ keys, xid ∈ done := by
  induction keys generalizing marks with
  | nil =>
      cases h
      exact ⟨marks.visited, hfinished, Finset.Subset.refl _, by simp⟩
  | cons xid keys ih =>
      have hsearched : Searched waitFor marks [xid] (detectCycle waitFor fuel xid marks) := by
        by_cases hvisited : xid ∈ marks.visited
        · exact detectCycle_left hstack hvisited hfinished
        · refine detectCycle_searched fuel xid marks ?_ hvisited ?_ ?_
          · rw [hstack]
            exact Finset.empty_subset _
          · rw [hstack]
            simp
          · rwa [hstack, Finset.sdiff_empty]
      rw [detectFrom] at h
      cases hresult : detectCycle waitFor fuel xid marks with
      | none =>
          rw [hresult] at h
          cases h
      | some result =>
          rw [hresult] at h hsearched
          cases result with
          | error cycle =>
              cases h
              exact hsearched
          | ok marks' =>
              have hstack' : marks'.stack = ∅ := hsearched.stack_eq.trans hstack
              have hfinished' : Finished (Edge waitFor) marks'.visited := by
                have hsub := hsearched.finished
                rwa [hstack, Finset.sdiff_empty] at hsub
              have hrest := ih marks' hstack' hfinished' h
              cases answer with
              | some cycle => exact hrest
              | none =>
                  obtain ⟨done, hdone, hsub, hkeys⟩ := hrest
                  refine ⟨done, hdone, hsearched.visited.trans hsub, ?_⟩
                  intro y hy
                  rcases List.mem_cons.mp hy with rfl | hy
                  · have hmem := hsearched.mem y List.mem_cons_self
                    exact hsub (Finset.mem_sdiff.mp hmem).1
                  · exact hkeys y hy

end Search

theorem edge_eq_waitsFor (mgr : LockManager) : Edge (waitForGraph mgr) = WaitsFor mgr := by
  funext xid blocker
  exact propext (edge_waitForGraph mgr xid blocker)

/-- The search returns with every order of the keys, and it returns a cycle exactly if
there is one. -/
theorem detectDeadlock_exact (mgr : LockManager) (keys : List TransactionId)
    (hkeys : keys.Perm (waitForGraph mgr).keys) :
    ∃ answer, detectDeadlock mgr keys = some answer ∧
      (answer.isSome ↔ ∃ xid, TransGen (WaitsFor mgr) xid xid) ∧
      ∀ cycle, answer = some cycle →
        ∃ xid blocker, cycle = [xid, blocker] ∧ CycleEdge (WaitsFor mgr) xid blocker := by
  obtain ⟨answer, hanswer, -⟩ := detectDeadlock_blocked mgr keys
  refine ⟨answer, hanswer, ?_⟩
  rw [← edge_eq_waitsFor]
  have hexact : match answer with
      | some cycle => FoundCycle (waitForGraph mgr) cycle
      | none => ∃ done, Finished (Edge (waitForGraph mgr)) done ∧
          ∀ xid ∈ (waitForGraph mgr).keys, xid ∈ done := by
    rw [detectDeadlock] at hanswer
    split at hanswer
    · rename_i hempty
      cases hanswer
      refine ⟨∅, finished_empty, ?_⟩
      have hgraph : waitForGraph mgr = ∅ := by
        rw [waitForGraph, List.isEmpty_iff.mp hempty]
        rfl
      rw [hgraph]
      simp
    · have hfrom := detectFrom_exact keys ⟨∅, ∅⟩ rfl finished_empty hanswer
      cases answer with
      | some cycle => exact hfrom
      | none =>
          obtain ⟨done, hdone, -, hmem⟩ := hfrom
          exact ⟨done, hdone, fun xid hxid => hmem xid (hkeys.mem_iff.mpr hxid)⟩
  cases answer with
  | some cycle =>
      obtain ⟨xid, blocker, rfl, hedge⟩ := hexact
      refine ⟨iff_of_true rfl ⟨xid, hedge.cycle⟩, ?_⟩
      intro cycle' heq
      cases heq
      exact ⟨xid, blocker, rfl, hedge⟩
  | none =>
      obtain ⟨done, hdone, hmem⟩ := hexact
      refine ⟨iff_of_false Bool.false_ne_true ?_, nofun⟩
      rintro ⟨xid, hcycle⟩
      exact hdone.no_cycle (fun x y hedge => hmem x (AList.mem_keys.mp hedge.mem)) xid hcycle

/-- Two transactions that ask for each other's relation wait in a cycle. -/
theorem detectDeadlock_exact_crossed :
    ∃ xid, TransGen (WaitsFor (crossedCalls.foldl after LockManager.new)) xid xid := by
  have hkeys : [⟨1⟩, ⟨2⟩].Perm
      (waitForGraph (crossedCalls.foldl after LockManager.new)).keys := by decide
  have hdetect : detectDeadlock (crossedCalls.foldl after LockManager.new) [⟨1⟩, ⟨2⟩] =
      some (some [⟨2⟩, ⟨1⟩]) := by decide
  obtain ⟨answer, hanswer, hcycle, -⟩ := detectDeadlock_exact _ _ hkeys
  rw [hdetect] at hanswer
  cases hanswer
  exact hcycle.mp rfl

end PostgressRs.Txn.DeadlockExactness
