import PostgressRs.Lib.Transitions

/-!
The parallel executor (`src/executor/parallel/mod.rs`, `src/executor/parallel/worker.rs`).  Its
workers run as tasks of their own and share one state behind a lock, so a step of the model is
what one of them does while it holds the lock.  The state belongs to the executor, not to a call.
-/

namespace PostgressRs.Executor.ParallelWorkers

abbrev Tuples : Type := List (List String)

inductive ParallelPhase where
  | scanComplete
  | buildComplete
  | probeComplete

structure ParallelSharedState where
  tuples : Tuples
  phase : ParallelPhase
  error : Option String

def ParallelSharedState.addTuples (self : ParallelSharedState) (tuples : Tuples) :
    ParallelSharedState :=
  { self with tuples := self.tuples ++ tuples }

/-- A task that runs: it gets the context and may change what is behind the lock, and go on as
it found it, before it returns its tuples or panics. -/
inductive Task where
  | locked (change : ParallelSharedState → ParallelSharedState)
      (next : ParallelSharedState → Task)
  | returned (tuples : Tuples)
  | panicked

/-- What a handle stands for. -/
inductive Worker where
  | running (task : Task)
  | finished (tuples : Tuples)
  | failed

namespace Worker

def isFinished : Worker → Bool
  | .finished _ => true
  | _ => false

/-- The tuples that its task returned, once they are added. -/
def results : Worker → Tuples
  | .finished tuples => tuples
  | _ => []

def step (self : Worker) (shared : ParallelSharedState) : Option (Worker × ParallelSharedState) :=
  match self with
  | .running (.locked change next) => some (.running (next shared), change shared)
  | .running (.returned tuples) => some (.finished tuples, shared.addTuples tuples)
  | .running .panicked => some (.failed, shared)
  | _ => none

end Worker

/-- How far `execute_parallel` has come. -/
inductive Call where
  | idle
  | awaiting (workers : List Worker)
  | collecting (workers : List Worker)
  | reporting (workers : List Worker)

def Call.workers : Call → List Worker
  | .idle => []
  | .awaiting workers => workers
  | .collecting workers => workers
  | .reporting workers => workers

/-- What `execute_parallel` returns. -/
inductive Outcome where
  | ok (tuples : Tuples)
  | joinError
  | failed (message : String)
  | panicked
deriving DecidableEq

/-- An executor with the workers of the calls before, some of which may still run if their call
failed. -/
structure ParallelExecutor where
  nWorkers : UInt32
  shared : ParallelSharedState
  past : List Worker
  call : Call

def ParallelExecutor.new (nWorkers : UInt32) : ParallelExecutor where
  nWorkers := nWorkers
  shared := ⟨[], .scanComplete, none⟩
  past := []
  call := .idle

inductive Action where
  | start (task : UInt32 → Task)
  | work (worker : Nat)
  | workPast (worker : Nat)
  | join
  | finish

def spawn (nWorkers : UInt32) (task : UInt32 → Task) : List Worker :=
  (List.range nWorkers.toNat).map fun workerId => .running (task (UInt32.ofNat workerId))

/-- One of several workers makes a step. -/
def stepWorker (workers : List Worker) (worker : Nat) (shared : ParallelSharedState) :
    Option (List Worker × ParallelSharedState) := do
  let self ← workers[worker]?
  let (self, shared) ← self.step shared
  pure (workers.set worker self, shared)

/-- The call is over. -/
def leave (self : ParallelExecutor) (workers : List Worker) : ParallelExecutor :=
  { self with past := self.past ++ workers, call := .idle }

def step (self : ParallelExecutor) : Action → Option ParallelExecutor
  | .start task =>
      match self.call with
      | .idle => some { self with call := .awaiting (spawn self.nWorkers task) }
      | _ => none
  | .work worker =>
      match self.call with
      | .awaiting workers =>
          (stepWorker workers worker self.shared).map fun (workers, shared) =>
            { self with shared := shared, call := .awaiting workers }
      | _ => none
  | .workPast worker =>
      (stepWorker self.past worker self.shared).map fun (past, shared) =>
        { self with shared := shared, past := past }
  -- the handles are awaited in their order, so the first one without tuples decides
  | .join =>
      match self.call with
      | .awaiting workers =>
          match workers.find? fun worker => !worker.isFinished with
          | none =>
              if self.shared.error.isSome then some { self with call := .reporting workers }
              else some { self with call := .collecting workers }
          | some .failed => some (leave self workers)
          | some _ => none
      | _ => none
  | .finish =>
      match self.call with
      | .collecting workers => some (leave self workers)
      | .reporting workers => some (leave self workers)
      | _ => none

def ExecutorStep (self : ParallelExecutor) (action : Action) (next : ParallelExecutor) : Prop :=
  step self action = some next

/-- What a step returns to the caller. -/
def returned (self : ParallelExecutor) : Action → Option Outcome
  | .join =>
      match self.call with
      | .awaiting workers =>
          match workers.find? fun worker => !worker.isFinished with
          | some .failed => some .joinError
          | _ => none
      | _ => none
  | .finish =>
      match self.call with
      | .collecting _ => some (.ok self.shared.tuples)
      | .reporting _ =>
          match self.shared.error with
          | some error => some (.failed ("Parallel execution failed: " ++ error))
          | none => some .panicked
      | _ => none
  | _ => none

end PostgressRs.Executor.ParallelWorkers
