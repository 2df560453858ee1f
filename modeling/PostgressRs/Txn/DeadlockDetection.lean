import Mathlib.Data.Finset.Card
import PostgressRs.Txn.LockSafety

/-!
Deadlock detection (`detect_deadlock` of `src/transaction/locks.rs`): which
transactions of a reported cycle still wait.
-/

namespace PostgressRs.Txn.DeadlockDetection

open PostgressRs.Lib.Procedure
open PostgressRs.Lib.Transitions
open PostgressRs.Txn.LockSafety
open PostgressRs.Txn.LockTable
open PostgressRs.Txn.TransactionTable
open PostgressRs.Types

section Graph

/-- The locks held on what a request asks for. -/
def heldOn (mgr : LockManager) (request : LockRequest) : List LockEntry :=
  match request.pageId, request.tupleOffset with
  | some pageId, some tupleOffset =>
      holders mgr.rowLocks (request.relationOid, pageId, tupleOffset)
  | _, _ => holders mgr.tableLocks request.relationOid

def blockersOf (mgr : LockManager) (request : LockRequest) : List TransactionId :=
  ((heldOn mgr request).filter fun lock =>
    lock.holder ≠ request.xid ∧ request.mode.conflictsWith lock.mode).map LockEntry.holder

abbrev WaitFor := AList fun _ : TransactionId => List TransactionId

def addRequest (mgr : LockManager) (waitFor : WaitFor) (request : LockRequest) : WaitFor :=
  let blockers := blockersOf mgr request
  if blockers = [] then waitFor
  else waitFor.insert request.xid ((waitFor.lookup request.xid).getD [] ++ blockers)

/-- The wait-for graph. -/
def waitForGraph (mgr : LockManager) : WaitFor :=
  mgr.waitQueue.foldl (addRequest mgr) ∅

end Graph

section Search

/-- The sets of the depth-first search. -/
structure Marks where
  visited : Finset TransactionId
  stack : Finset TransactionId

def Marks.enter (marks : Marks) (xid : TransactionId) : Marks where
  visited := insert xid marks.visited
  stack := insert xid marks.stack

def Marks.leave (marks : Marks) (xid : TransactionId) : Marks :=
  { marks with stack := marks.stack.erase xid }

/-- The loop over the blockers; an error is a cycle. -/
def visitBlockers
    (detect : TransactionId → Marks → Option (Except (List TransactionId) Marks))
    (xid : TransactionId) :
    List TransactionId → Marks → Option (Except (List TransactionId) Marks)
  | [], marks => some (.ok marks)
  | blocker :: blockers, marks =>
      if blocker ∉ marks.visited then
        match detect blocker marks with
        | some (.ok marks) => visitBlockers detect xid blockers marks
        | some (.error cycle) => some (.error cycle)
        | none => none
      else if blocker ∈ marks.stack then some (.error [xid, blocker])
      else visitBlockers detect xid blockers marks

/-- A `none` is a search that is deeper than the fuel. -/
def detectCycle (waitFor : WaitFor) :
    Nat → TransactionId → Marks → Option (Except (List TransactionId) Marks)
  | 0, _, _ => none
  | fuel + 1, xid, marks =>
      let blockers := (waitFor.lookup xid).getD []
      match visitBlockers (detectCycle waitFor fuel) xid blockers (marks.enter xid) with
      | some (.ok marks) => some (.ok (marks.leave xid))
      | some (.error cycle) => some (.error cycle)
      | none => none

def detectFrom (waitFor : WaitFor) (fuel : Nat) :
    List TransactionId → Marks → Option (Option (List TransactionId))
  | [], _ => some none
  | xid :: keys, marks =>
      match detectCycle waitFor fuel xid marks with
      | some (.ok marks) => detectFrom waitFor fuel keys marks
      | some (.error cycle) => some (some cycle)
      | none => none

/-- `detect_deadlock`, with the keys of the graph in the order of the hash map. -/
def detectDeadlock (mgr : LockManager) (keys : List TransactionId) :
    Option (Option (List TransactionId)) :=
  if mgr.waitQueue.isEmpty then some none
  else
    let waitFor := waitForGraph mgr
    detectFrom waitFor (waitFor.keys.length + 2) keys ⟨∅, ∅⟩

end Search

section Waiting

/-- Another transaction holds a lock that conflicts with the request. -/
def Blocked (mgr : LockManager) (request : LockRequest) : Prop :=
  ∃ lock ∈ heldOn mgr request, lock.holder ≠ request.xid ∧ request.mode.conflictsWith lock.mode

theorem blocked_of_blockersOf {mgr : LockManager} {request : LockRequest}
    (h : blockersOf mgr request ≠ []) : Blocked mgr request := by
  obtain ⟨xid, hxid⟩ := List.exists_mem_of_ne_nil _ h
  obtain ⟨lock, hlock, -⟩ := List.mem_map.mp hxid
  obtain ⟨hheld, hconflict⟩ := List.mem_filter.mp hlock
  exact ⟨lock, hheld, by simpa using hconflict⟩

/-- The transactions of the graph have a request in the queue that is blocked. -/
theorem exists_blocked_of_mem {mgr : LockManager} {xid : TransactionId}
    (h : xid ∈ waitForGraph mgr) :
    ∃ request ∈ mgr.waitQueue, request.xid = xid ∧ Blocked mgr request := by
  have hfold : ∀ (queue : List LockRequest) (waitFor : WaitFor),
      xid ∈ queue.foldl (addRequest mgr) waitFor →
        xid ∈ waitFor ∨ ∃ request ∈ queue, request.xid = xid ∧ Blocked mgr request := by
    intro queue
    induction queue with
    | nil => exact fun _ hmem => Or.inl hmem
    | cons request queue ih =>
        intro waitFor hmem
        rcases ih _ hmem with hadded | ⟨request', hrequest', hblocked⟩
        · unfold addRequest at hadded
          dsimp only at hadded
          split at hadded
          · exact Or.inl hadded
          · rename_i hblockers
            rcases (AList.mem_insert _).mp hadded with rfl | hold
            · exact Or.inr ⟨request, List.mem_cons_self, rfl, blocked_of_blockersOf hblockers⟩
            · exact Or.inl hold
        · exact Or.inr ⟨request', List.mem_cons_of_mem _ hrequest', hblocked⟩
  rcases hfold mgr.waitQueue ∅ h with hempty | hqueued
  · exact absurd hempty (AList.notMem_empty xid)
  · exact hqueued

end Waiting

section Soundness

variable {waitFor : WaitFor}

/-- The transactions on the path of the search wait for somebody. -/
def OnPath (waitFor : WaitFor) (marks : Marks) : Prop :=
  ∀ xid ∈ marks.stack, xid ∈ waitFor

/-- The keys the search has not seen. -/
def unvisited (waitFor : WaitFor) (marks : Marks) : Finset TransactionId :=
  waitFor.keys.toFinset \ marks.visited

/-- The search ends with a cycle of waiting transactions, or goes on. -/
def Sound (waitFor : WaitFor) (marks : Marks) :
    Option (Except (List TransactionId) Marks) → Prop
  | none => False
  | some (.error cycle) => ∀ xid ∈ cycle, xid ∈ waitFor
  | some (.ok marks') => OnPath waitFor marks' ∧ marks.visited ⊆ marks'.visited

theorem unvisited_subset {marks marks' : Marks} (h : marks.visited ⊆ marks'.visited) :
    unvisited waitFor marks' ⊆ unvisited waitFor marks :=
  Finset.sdiff_subset_sdiff (Finset.Subset.refl _) h

theorem unvisited_enter {marks : Marks} {xid : TransactionId} (hkey : xid ∈ waitFor)
    (hnew : xid ∉ marks.visited) :
    (unvisited waitFor (marks.enter xid)).card < (unvisited waitFor marks).card := by
  refine Finset.card_lt_card ⟨unvisited_subset (Finset.subset_insert _ _), ?_⟩
  intro hsubset
  have hxid : xid ∈ unvisited waitFor marks :=
    Finset.mem_sdiff.mpr ⟨List.mem_toFinset.mpr (AList.mem_keys.mp hkey), hnew⟩
  exact (Finset.mem_sdiff.mp (hsubset hxid)).2 (Finset.mem_insert_self _ _)

/-- How deep a search from the transaction can go. -/
def depth (waitFor : WaitFor) (marks : Marks) (xid : TransactionId) : Nat :=
  if xid ∈ waitFor then (unvisited waitFor (marks.enter xid)).card + 2 else 1

/-- A search from a blocker that is not visited goes less deep. -/
theorem depth_blocker {marks marks' : Marks} {xid blocker : TransactionId} (hkey : xid ∈ waitFor)
    (hvisited : (marks.enter xid).visited ⊆ marks'.visited) (hnew : blocker ∉ marks'.visited) :
    depth waitFor marks' blocker < depth waitFor marks xid := by
  have hle : (unvisited waitFor marks').card ≤ (unvisited waitFor (marks.enter xid)).card :=
    Finset.card_le_card (unvisited_subset hvisited)
  unfold depth
  rw [if_pos hkey]
  split
  · rename_i hblocker
    have hlt := unvisited_enter hblocker hnew
    omega
  · omega

theorem visitBlockers_sound
    {detect : TransactionId → Marks → Option (Except (List TransactionId) Marks)}
    {xid : TransactionId} {entered : Marks} (hkey : xid ∈ waitFor)
    (hdetect : ∀ blocker marks, OnPath waitFor marks → entered.visited ⊆ marks.visited →
      blocker ∉ marks.visited → Sound waitFor marks (detect blocker marks))
    (blockers : List TransactionId) (marks : Marks) (hpath : OnPath waitFor marks)
    (hvisited : entered.visited ⊆ marks.visited) :
    Sound waitFor marks (visitBlockers detect xid blockers marks) := by
  induction blockers generalizing marks with
  | nil => exact ⟨hpath, Finset.Subset.refl _⟩
  | cons blocker blockers ih =>
      rw [visitBlockers]
      split
      · rename_i hnew
        have hsound := hdetect blocker marks hpath hvisited hnew
        cases hresult : detect blocker marks with
        | none =>
            rw [hresult] at hsound
            exact hsound.elim
        | some result =>
            rw [hresult] at hsound
            cases result with
            | error cycle => exact hsound
            | ok marks' =>
                obtain ⟨hpath', hvisited'⟩ := hsound
                have hrest := ih marks' hpath' (hvisited.trans hvisited')
                dsimp only
                cases hvisit : visitBlockers detect xid blockers marks' with
                | none =>
                    rw [hvisit] at hrest
                    exact hrest
                | some result =>
                    rw [hvisit] at hrest
                    cases result with
                    | error cycle => exact hrest
                    | ok marks'' => exact ⟨hrest.1, hvisited'.trans hrest.2⟩
      · split
        · rename_i hstack
          intro xid' hxid'
          rcases List.mem_cons.mp hxid' with rfl | hxid'
          · exact hkey
          · rw [List.mem_singleton.mp hxid']
            exact hpath blocker hstack
        · exact ih marks hpath hvisited

theorem detectCycle_sound (fuel : Nat) (xid : TransactionId) (marks : Marks)
    (hfuel : depth waitFor marks xid ≤ fuel) (hpath : OnPath waitFor marks) :
    Sound waitFor marks (detectCycle waitFor fuel xid marks) := by
  induction fuel generalizing xid marks with
  | zero =>
      unfold depth at hfuel
      split at hfuel <;> omega
  | succ fuel ih =>
      have hentered : marks.visited ⊆ (marks.enter xid).visited := Finset.subset_insert _ _
      rw [detectCycle]
      by_cases hkey : xid ∈ waitFor
      · have hpathEntered : OnPath waitFor (marks.enter xid) := by
          intro xid' hxid'
          rcases Finset.mem_insert.mp hxid' with rfl | hxid'
          · exact hkey
          · exact hpath xid' hxid'
        have hsound := visitBlockers_sound hkey
          (fun blocker marks' hpath' hvisited hnew => ih blocker marks'
            (Nat.le_of_lt_succ (lt_of_lt_of_le (depth_blocker hkey hvisited hnew) hfuel)) hpath')
          ((waitFor.lookup xid).getD []) (marks.enter xid) hpathEntered (Finset.Subset.refl _)
        cases hvisit : visitBlockers (detectCycle waitFor fuel) xid ((waitFor.lookup xid).getD [])
            (marks.enter xid) with
        | none =>
            rw [hvisit] at hsound
            exact hsound
        | some result =>
            rw [hvisit] at hsound
            cases result with
            | error cycle => exact hsound
            | ok marks' =>
                refine ⟨?_, hentered.trans hsound.2⟩
                intro xid' hxid'
                exact hsound.1 xid' (Finset.mem_of_mem_erase hxid')
      · rw [AList.lookup_eq_none.mpr hkey]
        refine ⟨?_, hentered⟩
        intro xid' hxid'
        obtain ⟨hne, hinsert⟩ := Finset.mem_erase.mp hxid'
        exact hpath xid' (Finset.mem_of_mem_insert_of_ne hinsert hne)

theorem detectFrom_sound {fuel : Nat} (hfuel : waitFor.keys.length + 2 ≤ fuel)
    (keys : List TransactionId) (marks : Marks) (hpath : OnPath waitFor marks) :
    ∃ answer, detectFrom waitFor fuel keys marks = some answer ∧
      ∀ cycle, answer = some cycle → ∀ xid ∈ cycle, xid ∈ waitFor := by
  induction keys generalizing marks with
  | nil => exact ⟨none, rfl, by simp⟩
  | cons xid keys ih =>
      have hdepth : depth waitFor marks xid ≤ fuel := by
        have hcard : (unvisited waitFor (marks.enter xid)).card ≤ waitFor.keys.length :=
          (Finset.card_le_card Finset.sdiff_subset).trans (List.toFinset_card_le _)
        unfold depth
        split <;> omega
      have hsound := detectCycle_sound fuel xid marks hdepth hpath
      rw [detectFrom]
      cases hresult : detectCycle waitFor fuel xid marks with
      | none =>
          rw [hresult] at hsound
          exact hsound.elim
      | some result =>
          rw [hresult] at hsound
          cases result with
          | error cycle =>
              refine ⟨some cycle, rfl, ?_⟩
              intro cycle' heq
              cases heq
              exact hsound
          | ok marks' => exact ih marks' hsound.1

/-- The search returns, and its cycle is made of transactions with a request in
the queue that is blocked. -/
theorem detectDeadlock_blocked (mgr : LockManager) (keys : List TransactionId) :
    ∃ answer, detectDeadlock mgr keys = some answer ∧
      ∀ cycle, answer = some cycle → ∀ xid ∈ cycle,
        ∃ request ∈ mgr.waitQueue, request.xid = xid ∧ Blocked mgr request := by
  unfold detectDeadlock
  split
  · exact ⟨none, rfl, by simp⟩
  · obtain ⟨answer, hanswer, hcycle⟩ := detectFrom_sound
      (Nat.le_refl ((waitForGraph mgr).keys.length + 2)) keys ⟨∅, ∅⟩ (by simp [OnPath])
    exact ⟨answer, hanswer, fun cycle heq xid hxid =>
      exists_blocked_of_mem (hcycle cycle heq xid hxid)⟩

end Soundness

section History

abbrev LockTransition := Transition LockManager LockCall

/-- The request of a call that acquires a lock. -/
def requestOf : LockCall → Option LockRequest
  | .acquireTable xid relationOid mode => some ⟨xid, mode, relationOid, none, none⟩
  | .acquireRow xid relationOid pageId tupleOffset mode =>
      some ⟨xid, mode, relationOid, some pageId, some tupleOffset⟩
  | _ => none

def Refuses (tr : LockTransition) (request : LockRequest) : Prop :=
  requestOf tr.label = some request ∧ ∃ e mgr, tr.label.run tr.source = .err e mgr

/-- The request is granted, or its transaction gives up by `release_all_locks`. -/
def Settles (tr : LockTransition) (request : LockRequest) : Prop :=
  (requestOf tr.label = some request ∧ ∃ mgr, tr.label.run tr.source = .ok () mgr) ∨
    tr.label = .releaseAll request.xid

/-- The request failed and was neither granted nor abandoned since. -/
def Pending (trace : List LockTransition) (request : LockRequest) : Prop :=
  ∃ before tr after, trace = before ++ tr :: after ∧ Refuses tr request ∧
    ∀ tr' ∈ after, ¬Settles tr' request

/-- The request was granted or abandoned and has not failed since. -/
def Settled (trace : List LockTransition) (request : LockRequest) : Prop :=
  ∃ before tr after, trace = before ++ tr :: after ∧ Settles tr request ∧
    ∀ tr' ∈ after, ¬Refuses tr' request

theorem pending_or_settled {trace : List LockTransition} {request : LockRequest}
    (h : ∃ tr ∈ trace, Refuses tr request) : Pending trace request ∨ Settled trace request := by
  induction trace using List.reverseRecOn with
  | nil => simp at h
  | append_singleton trace tr ih =>
      by_cases hrefuses : Refuses tr request
      · exact Or.inl ⟨trace, tr, [], rfl, hrefuses, by simp⟩
      by_cases hsettles : Settles tr request
      · exact Or.inr ⟨trace, tr, [], rfl, hsettles, by simp⟩
      have hbefore : ∃ tr' ∈ trace, Refuses tr' request := by
        obtain ⟨tr', hmem, htr'⟩ := h
        rcases List.mem_append.mp hmem with hmem | hmem
        · exact ⟨tr', hmem, htr'⟩
        · rw [List.mem_singleton.mp hmem] at htr'
          exact absurd htr' hrefuses
      rcases ih hbefore with ⟨before, tr', after, rfl, hfirst, hafter⟩ |
        ⟨before, tr', after, rfl, hfirst, hafter⟩
      · refine Or.inl ⟨before, tr', after ++ [tr], by simp, hfirst, ?_⟩
        intro tr'' hmem
        rcases List.mem_append.mp hmem with hmem | hmem
        · exact hafter tr'' hmem
        · rwa [List.mem_singleton.mp hmem]
      · refine Or.inr ⟨before, tr', after ++ [tr], by simp, hfirst, ?_⟩
        intro tr'' hmem
        rcases List.mem_append.mp hmem with hmem | hmem
        · exact hafter tr'' hmem
        · rwa [List.mem_singleton.mp hmem]

theorem not_refuses_of_settles {tr : LockTransition} {request : LockRequest}
    (h : Settles tr request) : ¬Refuses tr request := by
  rintro ⟨hrequest, e, mgr, herr⟩
  rcases h with ⟨-, mgr', hok⟩ | hall
  · rw [hok] at herr
    cases herr
  · rw [hall] at hrequest
    cases hrequest

theorem not_pending_of_settled {trace : List LockTransition} {request : LockRequest}
    (h : Settled trace request) : ¬Pending trace request := by
  obtain ⟨before, tr, after, rfl, hsettles, hafter⟩ := h
  rintro ⟨before', tr', after', heq, hrefuses, hafter'⟩
  have hback : ∀ other ∈ tr :: after, ¬Refuses other request := by
    intro other hother
    rcases List.mem_cons.mp hother with rfl | hother
    · exact not_refuses_of_settles hsettles
    · exact hafter other hother
  rcases List.append_eq_append_iff.mp heq with ⟨middle, -, hmiddle⟩ | ⟨middle, -, hmiddle⟩
  · exact hback tr' (hmiddle ▸ List.mem_append_right _ List.mem_cons_self) hrefuses
  · cases middle with
    | nil =>
        obtain ⟨rfl, -⟩ := List.cons.inj hmiddle
        exact hback tr' List.mem_cons_self hrefuses
    | cons other middle =>
        obtain ⟨-, rfl⟩ := List.cons.inj hmiddle
        exact hafter' tr (List.mem_append_right _ List.mem_cons_self) hsettles

/-- A request that enters the queue is refused. -/
theorem mem_waitQueue_step {mgr mgr' : LockManager} {call : LockCall} {request : LockRequest}
    (hstep : LockStep mgr call mgr') (h : request ∈ mgr'.waitQueue) :
    request ∈ mgr.waitQueue ∨ Refuses ⟨mgr, call, mgr'⟩ request := by
  cases call with
  | acquireTable xid relationOid mode =>
      unfold LockStep at hstep
      unfold Refuses
      simp only [LockCall.run, acquireTableLock] at hstep ⊢
      rcases hrequest : LockTable.request mgr.tableLocks relationOid xid mode with
        ⟨tableLocks, granted⟩
      rw [hrequest] at hstep
      cases granted with
      | true =>
          cases hstep
          exact Or.inl h
      | false =>
          cases hstep
          rcases List.mem_append.mp h with hold | hnew
          · exact Or.inl hold
          · rw [List.mem_singleton.mp hnew]
            exact Or.inr ⟨rfl, _, _, rfl⟩
  | acquireRow xid relationOid pageId tupleOffset mode =>
      unfold LockStep at hstep
      unfold Refuses
      simp only [LockCall.run, acquireRowLock] at hstep ⊢
      rcases hrequest : LockTable.request mgr.rowLocks (relationOid, pageId, tupleOffset) xid mode
        with ⟨rowLocks, granted⟩
      rw [hrequest] at hstep
      cases granted with
      | true =>
          cases hstep
          exact Or.inl h
      | false =>
          cases hstep
          rcases List.mem_append.mp h with hold | hnew
          · exact Or.inl hold
          · rw [List.mem_singleton.mp hnew]
            exact Or.inr ⟨rfl, _, _, rfl⟩
  | releaseTable xid relationOid =>
      cases hstep
      exact Or.inl h
  | releaseRow xid relationOid pageId tupleOffset =>
      cases hstep
      exact Or.inl h
  | releaseAll xid =>
      cases hstep
      exact Or.inl h

/-- The queue holds only requests that failed. -/
theorem refused_of_mem_waitQueue {trace : List LockTransition} {mgr : LockManager}
    (hrun : Run LockStep LockManager.new trace mgr) :
    ∀ request ∈ mgr.waitQueue, ∃ tr ∈ trace, Refuses tr request := by
  refine Run.invariant_history
    (fun past mgr => ∀ request ∈ mgr.waitQueue, ∃ tr ∈ past, Refuses tr request)
    (fun _ _ => True) ?_ hrun [] (by simp [LockManager.new]) fun _ _ => trivial
  intro past mgr call mgr' hpast _ hstep request hrequest
  rcases mem_waitQueue_step hstep hrequest with hold | hrefuses
  · obtain ⟨tr, htr, hrefuses⟩ := hpast request hold
    exact ⟨tr, List.mem_append_left _ htr, hrefuses⟩
  · exact ⟨_, List.mem_append_right _ List.mem_cons_self, hrefuses⟩

end History

/-- In a run, a reported cycle has only transactions with a pending request, as
long as no request that was granted or abandoned is blocked again while it
stands in the queue. -/
theorem detectDeadlock_pending {trace : List LockTransition} {mgr : LockManager}
    (hrun : Run LockStep LockManager.new trace mgr)
    (hsettled : ∀ request ∈ mgr.waitQueue, Settled trace request → ¬Blocked mgr request)
    (keys : List TransactionId) :
    ∃ answer, detectDeadlock mgr keys = some answer ∧
      ∀ cycle, answer = some cycle → ∀ xid ∈ cycle,
        ∃ request, request.xid = xid ∧ Pending trace request := by
  obtain ⟨answer, hanswer, hblocked⟩ := detectDeadlock_blocked mgr keys
  refine ⟨answer, hanswer, ?_⟩
  intro cycle heq xid hxid
  obtain ⟨request, hqueued, hrequest, hconflict⟩ := hblocked cycle heq xid hxid
  rcases pending_or_settled (refused_of_mem_waitQueue hrun request hqueued) with hpending | hold
  · exact ⟨request, hrequest, hpending⟩
  · exact absurd hconflict (hsettled request hqueued hold)

/-- The transitions of some calls, one after the other. -/
def traceOf : LockManager → List LockCall → List LockTransition
  | _, [] => []
  | mgr, call :: calls => ⟨mgr, call, after mgr call⟩ :: traceOf (after mgr call) calls

theorem run_traceOf (mgr : LockManager) (calls : List LockCall) :
    Run LockStep mgr (traceOf mgr calls) (calls.foldl after mgr) := by
  induction calls generalizing mgr with
  | nil => exact Run.nil mgr
  | cons call calls ih => exact Run.cons (lockStep_after mgr call) (ih _)

theorem traceOf_append (mgr : LockManager) (front back : List LockCall) :
    traceOf mgr (front ++ back) = traceOf mgr front ++ traceOf (front.foldl after mgr) back := by
  induction front generalizing mgr with
  | nil => rfl
  | cons call front ih => exact congrArg _ (ih (after mgr call))

/-- Two transactions that ask for each other's relation. -/
def crossedCalls : List LockCall :=
  [.acquireTable ⟨1⟩ ⟨100⟩ .exclusive, .acquireTable ⟨2⟩ ⟨200⟩ .exclusive,
    .acquireTable ⟨1⟩ ⟨200⟩ .accessShare, .acquireTable ⟨2⟩ ⟨100⟩ .accessShare]

theorem detectDeadlock_pending_crossed :
    ∃ trace mgr, Run LockStep LockManager.new trace mgr ∧
      detectDeadlock mgr [⟨1⟩, ⟨2⟩] = some (some [⟨2⟩, ⟨1⟩]) ∧
      ∀ xid ∈ [(⟨2⟩ : TransactionId), ⟨1⟩], ∃ request : LockRequest,
        request.xid = xid ∧ Pending trace request := by
  have hrun := run_traceOf LockManager.new crossedCalls
  have hdetect : detectDeadlock (crossedCalls.foldl after LockManager.new) [⟨1⟩, ⟨2⟩] =
      some (some [⟨2⟩, ⟨1⟩]) := by decide
  have hsettled : ∀ request ∈ (crossedCalls.foldl after LockManager.new).waitQueue,
      Settled (traceOf LockManager.new crossedCalls) request →
        ¬Blocked (crossedCalls.foldl after LockManager.new) request := by
    rintro request hqueued ⟨before, tr, rest, htrace, hsettles, -⟩
    have htr : tr ∈ traceOf LockManager.new crossedCalls := by
      rw [htrace]
      exact List.mem_append_right _ List.mem_cons_self
    have hmode : request.mode = .accessShare := by
      have hqueue : (crossedCalls.foldl after LockManager.new).waitQueue =
          [⟨⟨1⟩, .accessShare, ⟨200⟩, none, none⟩, ⟨⟨2⟩, .accessShare, ⟨100⟩, none, none⟩] := rfl
      rw [hqueue] at hqueued
      rcases List.mem_cons.mp hqueued with rfl | hqueued
      · rfl
      · rw [List.mem_singleton.mp hqueued]
    simp only [traceOf, crossedCalls, List.mem_cons, List.not_mem_nil, or_false] at htr
    rcases hsettles with ⟨hrequest, mgr, hok⟩ | hall
    · rcases htr with rfl | rfl | rfl | rfl
      · cases hrequest
        cases hmode
      · cases hrequest
        cases hmode
      · cases hok
      · cases hok
    · rcases htr with rfl | rfl | rfl | rfl <;> cases hall
  obtain ⟨answer, hanswer, hcycle⟩ := detectDeadlock_pending hrun hsettled [⟨1⟩, ⟨2⟩]
  rw [hdetect] at hanswer
  cases hanswer
  exact ⟨_, _, hrun, hdetect, hcycle _ rfl⟩

/-- The second transaction gives up its request and takes another lock. -/
def abandonedCalls : List LockCall :=
  [.acquireTable ⟨1⟩ ⟨100⟩ .exclusive, .acquireTable ⟨2⟩ ⟨100⟩ .accessShare, .releaseAll ⟨2⟩,
    .acquireTable ⟨2⟩ ⟨200⟩ .exclusive, .acquireTable ⟨1⟩ ⟨200⟩ .accessShare]

/-- A transaction that gave up its request is reported when its later lock is in
the way of another one. -/
theorem detectDeadlock_abandoned :
    ∃ trace mgr cycle, Run LockStep LockManager.new trace mgr ∧
      detectDeadlock mgr (waitForGraph mgr).keys = some (some cycle) ∧
      ∃ xid ∈ cycle, ∀ request : LockRequest, request.xid = xid → ¬Pending trace request := by
  refine ⟨_, _, [⟨2⟩, ⟨1⟩], run_traceOf LockManager.new abandonedCalls, by decide, ⟨2⟩, by decide,
    ?_⟩
  intro request hxid
  have htrace := traceOf_append LockManager.new (abandonedCalls.take 2) (abandonedCalls.drop 2)
  refine not_pending_of_settled ⟨_, _, _, htrace, Or.inr (by rw [hxid]), ?_⟩
  rintro tr' htr' ⟨hrequest, e, mgr, herr⟩
  rcases List.mem_cons.mp htr' with rfl | htr'
  · cases herr
  · rw [List.mem_singleton.mp htr'] at hrequest
    cases hrequest
    revert hxid
    decide

end PostgressRs.Txn.DeadlockDetection
