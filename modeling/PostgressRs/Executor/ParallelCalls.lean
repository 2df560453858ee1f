import Mathlib.Algebra.Order.Group.Multiset
import PostgressRs.Executor.ParallelWorkers

/-!
What the calls of one executor return: the shared state keeps the tuples of all workers of all
calls.
-/

namespace PostgressRs.Executor.ParallelCalls

open PostgressRs.Executor.ParallelWorkers
open PostgressRs.Lib.Transitions

section Accounts

/-- The tuples that the tasks of some workers returned. -/
def resultsOf (workers : List Worker) : Multiset (List String) :=
  (workers.flatMap Worker.results : List (List String))

/-- A task that leaves the tuples of the others alone. -/
def Task.Quiet : Task → Prop
  | .locked change next =>
      (∀ shared, (change shared).tuples = shared.tuples) ∧ ∀ shared, Quiet (next shared)
  | .returned _ => True
  | .panicked => True

def Worker.Quiet : Worker → Prop
  | .running task => Task.Quiet task
  | _ => True

def Action.Quiet : Action → Prop
  | .start task => ∀ workerId, Task.Quiet (task workerId)
  | _ => True

/-- The shared tuples are those that all workers so far have returned. -/
structure Accounted (executor : ParallelExecutor) : Prop where
  tuples : (executor.shared.tuples : Multiset (List String)) =
    resultsOf executor.past + resultsOf executor.call.workers
  past : ∀ worker ∈ executor.past, Worker.Quiet worker
  workers : ∀ worker ∈ executor.call.workers, Worker.Quiet worker

variable {executor next : ParallelExecutor} {workers workers' : List Worker} {worker : Nat}
  {shared shared' : ParallelSharedState}

theorem resultsOf_append (workers workers' : List Worker) :
    resultsOf (workers ++ workers') = resultsOf workers + resultsOf workers' := by
  rw [resultsOf, List.flatMap_append, ← Multiset.coe_add]
  rfl

theorem resultsOf_cons (worker : Worker) (workers : List Worker) :
    resultsOf (worker :: workers) =
      (worker.results : Multiset (List String)) + resultsOf workers := by
  rw [resultsOf, List.flatMap_cons, ← Multiset.coe_add]
  rfl

theorem resultsOf_spawn (nWorkers : UInt32) (task : UInt32 → Task) :
    resultsOf (spawn nWorkers task) = 0 := by
  rw [resultsOf, spawn, List.flatMap_map]
  exact congrArg _ (List.flatMap_eq_nil_iff.mpr fun _ _ => rfl)

/-- A worker that makes a step has no results before it, and adds those that it has after it. -/
theorem step_results {before after : Worker} (h : before.step shared = some (after, shared'))
    (hquiet : Worker.Quiet before) :
    before.results = [] ∧ shared'.tuples = shared.tuples ++ after.results ∧
      Worker.Quiet after := by
  cases before with
  | running task =>
      cases task with
      | locked change following =>
          obtain ⟨rfl, rfl⟩ := Prod.mk.inj (Option.some.inj h)
          obtain ⟨hchange, hnext⟩ := hquiet
          exact ⟨rfl, (hchange shared).trans (List.append_nil _).symm, hnext shared⟩
      | returned tuples =>
          obtain ⟨rfl, rfl⟩ := Prod.mk.inj (Option.some.inj h)
          exact ⟨rfl, rfl, trivial⟩
      | panicked =>
          obtain ⟨rfl, rfl⟩ := Prod.mk.inj (Option.some.inj h)
          exact ⟨rfl, (List.append_nil _).symm, trivial⟩
  | finished tuples => cases h
  | failed => cases h

theorem resultsOf_set {before : Worker} (h : workers[worker]? = some before)
    (hempty : before.results = []) (after : Worker) :
    resultsOf (workers.set worker after) =
      resultsOf workers + (after.results : Multiset (List String)) := by
  induction workers generalizing worker with
  | nil => cases h
  | cons first workers ih =>
      cases worker with
      | zero =>
          obtain rfl := Option.some.inj h
          rw [List.set_cons_zero, resultsOf_cons, resultsOf_cons, hempty, Multiset.coe_nil,
            zero_add, add_comm]
      | succ worker =>
          rw [List.set_cons_succ, resultsOf_cons, resultsOf_cons, ih h, add_assoc]

theorem stepWorker_results (h : stepWorker workers worker shared = some (workers', shared'))
    (hquiet : ∀ worker ∈ workers, Worker.Quiet worker) :
    (∃ added : Multiset (List String),
        (shared'.tuples : Multiset (List String)) = (shared.tuples : Multiset _) + added ∧
          resultsOf workers' = resultsOf workers + added) ∧
      ∀ worker ∈ workers', Worker.Quiet worker := by
  rw [stepWorker, Option.bind_eq_bind, Option.bind_eq_some_iff] at h
  obtain ⟨before, hbefore, h⟩ := h
  rw [Option.bind_eq_bind, Option.bind_eq_some_iff] at h
  obtain ⟨⟨after, changed⟩, hstep, h⟩ := h
  obtain ⟨rfl, rfl⟩ := Prod.mk.inj (Option.some.inj h)
  obtain ⟨hempty, htuples, hafter⟩ :=
    step_results hstep (hquiet before (List.mem_of_getElem? hbefore))
  refine ⟨⟨after.results, ?_, resultsOf_set hbefore hempty after⟩, ?_⟩
  · rw [htuples, Multiset.coe_add]
  · intro other hother
    rcases List.mem_or_eq_of_mem_set hother with hmem | rfl
    · exact hquiet other hmem
    · exact hafter

end Accounts

section Steps

variable {executor next : ParallelExecutor}

theorem start_cases {task : UInt32 → Task} (h : step executor (.start task) = some next) :
    executor.call = .idle ∧
      next = { executor with call := .awaiting (spawn executor.nWorkers task) } := by
  cases hcall : executor.call with
  | idle =>
      rw [step, hcall] at h
      exact ⟨rfl, (Option.some.inj h).symm⟩
  | awaiting | collecting | reporting =>
      rw [step, hcall] at h
      cases h

theorem work_cases {worker : Nat} (h : step executor (.work worker) = some next) :
    ∃ workers workers' shared, executor.call = .awaiting workers ∧
      stepWorker workers worker executor.shared = some (workers', shared) ∧
      next = { executor with shared := shared, call := .awaiting workers' } := by
  cases hcall : executor.call with
  | awaiting workers =>
      rw [step, hcall] at h
      obtain ⟨⟨workers', shared⟩, hstep, rfl⟩ := Option.map_eq_some_iff.mp h
      exact ⟨workers, workers', shared, rfl, hstep, rfl⟩
  | idle | collecting | reporting =>
      rw [step, hcall] at h
      cases h

theorem workPast_cases {worker : Nat} (h : step executor (.workPast worker) = some next) :
    ∃ past shared, stepWorker executor.past worker executor.shared = some (past, shared) ∧
      next = { executor with shared := shared, past := past } := by
  obtain ⟨⟨past, shared⟩, hstep, rfl⟩ := Option.map_eq_some_iff.mp h
  exact ⟨past, shared, hstep, rfl⟩

/-- Once the handles are awaited the call has the same workers still, or is over. -/
theorem join_cases (h : step executor .join = some next) :
    (∃ call : Call, call.workers = executor.call.workers ∧ next = { executor with call := call }) ∨
      next = leave executor executor.call.workers := by
  cases hcall : executor.call with
  | awaiting workers =>
      rw [step, hcall] at h
      cases hfind : workers.find? fun worker => !worker.isFinished with
      | none =>
          simp only [hfind] at h
          split at h
          · exact .inl ⟨.reporting workers, rfl, (Option.some.inj h).symm⟩
          · exact .inl ⟨.collecting workers, rfl, (Option.some.inj h).symm⟩
      | some worker =>
          simp only [hfind] at h
          cases worker with
          | failed => exact .inr (Option.some.inj h).symm
          | running | finished => cases h
  | idle | collecting | reporting =>
      rw [step, hcall] at h
      cases h

theorem finish_cases (h : step executor .finish = some next) :
    next = leave executor executor.call.workers := by
  cases hcall : executor.call with
  | collecting workers | reporting workers =>
      rw [step, hcall] at h
      exact (Option.some.inj h).symm
  | idle | awaiting =>
      rw [step, hcall] at h
      cases h

end Steps

section Runs

variable {executor next : ParallelExecutor} {action : Action}

theorem accounted_new (nWorkers : UInt32) : Accounted (.new nWorkers) where
  tuples := rfl
  past _ h := absurd h List.not_mem_nil
  workers _ h := absurd h List.not_mem_nil

theorem Accounted.leave (h : Accounted executor) :
    Accounted (leave executor executor.call.workers) where
  tuples := by
    show (executor.shared.tuples : Multiset (List String)) = resultsOf (_ ++ _) + 0
    rw [h.tuples, resultsOf_append, add_zero]
  past worker hworker := (List.mem_append.mp hworker).elim (h.past worker) (h.workers worker)
  workers _ hworker := absurd hworker List.not_mem_nil

theorem Accounted.turn (h : Accounted executor) {call : Call}
    (hcall : call.workers = executor.call.workers) : Accounted { executor with call := call } where
  tuples := by
    show _ = resultsOf executor.past + resultsOf call.workers
    rw [hcall]
    exact h.tuples
  past := h.past
  workers := by
    show ∀ worker ∈ call.workers, _
    rw [hcall]
    exact h.workers

theorem Accounted.start (h : Accounted executor) {task : UInt32 → Task}
    (hquiet : ∀ workerId, Task.Quiet (task workerId)) (hidle : executor.call = .idle) :
    Accounted { executor with call := .awaiting (spawn executor.nWorkers task) } where
  tuples := by
    show _ = resultsOf executor.past + resultsOf (spawn executor.nWorkers task)
    rw [resultsOf_spawn, h.tuples, hidle]
    rfl
  past := h.past
  workers worker hworker := by
    obtain ⟨workerId, -, rfl⟩ := List.mem_map.mp hworker
    exact hquiet (UInt32.ofNat workerId)

theorem Accounted.work (h : Accounted executor) {workers workers' : List Worker} {worker : Nat}
    {shared : ParallelSharedState} (hcall : executor.call = .awaiting workers)
    (hstep : stepWorker workers worker executor.shared = some (workers', shared)) :
    Accounted { executor with shared := shared, call := .awaiting workers' } := by
  have htuples := h.tuples
  have hquiet := h.workers
  rw [hcall] at htuples hquiet
  obtain ⟨⟨added, hshared, hresults⟩, hnext⟩ := stepWorker_results hstep hquiet
  constructor
  · show (shared.tuples : Multiset (List String)) = resultsOf executor.past + resultsOf workers'
    rw [hshared, htuples, hresults, add_assoc]
    rfl
  · exact h.past
  · exact hnext

theorem Accounted.workPast (h : Accounted executor) {past : List Worker} {worker : Nat}
    {shared : ParallelSharedState}
    (hstep : stepWorker executor.past worker executor.shared = some (past, shared)) :
    Accounted { executor with shared := shared, past := past } := by
  obtain ⟨⟨added, hshared, hresults⟩, hnext⟩ := stepWorker_results hstep h.past
  constructor
  · show (shared.tuples : Multiset (List String)) = resultsOf past + resultsOf executor.call.workers
    rw [hshared, h.tuples, hresults, add_right_comm]
  · exact hnext
  · exact h.workers

theorem Accounted.step (h : Accounted executor) (hquiet : Action.Quiet action)
    (hstep : ExecutorStep executor action next) : Accounted next := by
  cases action with
  | start task =>
      obtain ⟨hidle, rfl⟩ := start_cases hstep
      exact h.start hquiet hidle
  | work worker =>
      obtain ⟨workers, workers', shared, hcall, hworker, rfl⟩ := work_cases hstep
      exact h.work hcall hworker
  | workPast worker =>
      obtain ⟨past, shared, hworker, rfl⟩ := workPast_cases hstep
      exact h.workPast hworker
  | join =>
      rcases join_cases hstep with ⟨call, hcall, rfl⟩ | rfl
      · exact h.turn hcall
      · exact h.leave
  | finish =>
      rw [finish_cases hstep]
      exact h.leave

theorem accounted_run {nWorkers : UInt32} {trace : List (Transition ParallelExecutor Action)}
    (hrun : Run ExecutorStep (.new nWorkers) trace executor)
    (hquiet : ∀ tr ∈ trace, Action.Quiet tr.label) : Accounted executor :=
  (Run.invariant Accounted (fun _ action => Action.Quiet action)
    (fun _ _ _ h hguard hstep => h.step hguard hstep) hrun (accounted_new nWorkers) hquiet).1

theorem returned_ok {tuples : Tuples} (h : returned executor .finish = some (.ok tuples)) :
    tuples = executor.shared.tuples := by
  cases hcall : executor.call with
  | collecting workers =>
      rw [returned, hcall] at h
      exact (Outcome.ok.inj (Option.some.inj h)).symm
  | reporting workers =>
      rw [returned, hcall] at h
      cases herror : executor.shared.error with
      | none =>
          rw [herror] at h
          cases h
      | some error =>
          rw [herror] at h
          cases h
  | idle | awaiting =>
      rw [returned, hcall] at h
      cases h

/-- A call returns what its own workers returned exactly if no worker of a call before it has
returned a tuple. -/
theorem parallel_call_iff {nWorkers : UInt32} {trace : List (Transition ParallelExecutor Action)}
    (hrun : Run ExecutorStep (.new nWorkers) trace executor)
    (hquiet : ∀ tr ∈ trace, Action.Quiet tr.label) {tuples : Tuples}
    (hreturned : returned executor .finish = some (.ok tuples)) :
    (tuples : Multiset (List String)) = resultsOf executor.call.workers ↔
      resultsOf executor.past = 0 := by
  rw [returned_ok hreturned, (accounted_run hrun hquiet).tuples]
  exact add_eq_right

/-- Calls of one worker each, the tasks of which only return tuples. -/
def callsReturning (tuples : Tuples) : List Action :=
  [.start fun _ => .returned tuples, .work 0, .join]

theorem quiet_callsReturning (tuples : Tuples) :
    ∀ action ∈ callsReturning tuples, Action.Quiet action := by
  intro action haction
  simp only [callsReturning, List.mem_cons, List.not_mem_nil, or_false] at haction
  rcases haction with rfl | rfl | rfl
  · exact fun _ => trivial
  · trivial
  · trivial

/-- The first call of an executor. -/
theorem parallel_call_iff_first :
    ∃ trace executor, Run ExecutorStep (.new 1) trace executor ∧
      returned executor .finish = some (.ok [["a"]]) ∧
      (([["a"]] : Tuples) : Multiset (List String)) = resultsOf executor.call.workers := by
  have hperform : (callsReturning [["a"]]).foldlM step (.new 1) = some _ := rfl
  obtain ⟨trace, hrun, hlabels⟩ := Run.exists_of_foldlM hperform
  have hquiet : ∀ tr ∈ trace, Action.Quiet tr.label := by
    intro tr htr
    exact quiet_callsReturning [["a"]] _ (hlabels ▸ List.mem_map_of_mem htr)
  exact ⟨trace, _, hrun, rfl, (parallel_call_iff hrun hquiet rfl).mpr rfl⟩

/-- The second call of the same executor returns the tuple of the first one as well. -/
theorem second_call_returns_both :
    ∃ trace executor, Run ExecutorStep (.new 1) trace executor ∧
      returned executor .finish = some (.ok [["a"], ["b"]]) ∧
      (([["a"], ["b"]] : Tuples) : Multiset (List String)) ≠ resultsOf executor.call.workers := by
  have hperform : (callsReturning [["a"]] ++ .finish :: callsReturning [["b"]]).foldlM step
      (.new 1) = some _ := rfl
  obtain ⟨trace, hrun, -⟩ := Run.exists_of_foldlM hperform
  refine ⟨trace, _, hrun, rfl, ?_⟩
  intro heq
  have hcard := congrArg Multiset.card heq
  cases hcard

end Runs

end PostgressRs.Executor.ParallelCalls
