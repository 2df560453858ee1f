import Mathlib.Logic.Function.Basic
import PostgressRs.Lib.Transitions

/-!
Waiting for a latch (`src/concurrency/latch.rs`).  `set` takes two atomic steps,
the store and `notify_waiters`; a turn of `async_wait` takes three, the load, the
creation of the future and its completion.  `notify_waiters` completes the
futures that exist and leaves nothing behind for those created later.
-/

namespace PostgressRs.Concurrency.LatchWaiters

open PostgressRs.Lib.Transitions

/-- The flag of a latch. -/
structure Latch where
  state : Int32
deriving DecidableEq

def Latch.new : Latch := ⟨0⟩

def Latch.store (_ : Latch) (value : Int32) : Latch := ⟨value⟩

def Latch.isSet (self : Latch) : Bool := self.state ≠ 0

/-- How far the call of `set` is. -/
inductive SetCall where
  | start
  | stored
  | finished
deriving DecidableEq

/-- How far a call of `async_wait` is. -/
inductive WaitCall where
  | test
  | sawZero
  | parked (notified : Bool)
  | returned
deriving DecidableEq

/-- A parked call is notified. -/
def WaitCall.notify : WaitCall → WaitCall
  | .parked _ => .parked true
  | call => call

/-- The latch, the one call that sets it and the calls that wait for it. -/
structure Machine where
  latch : Latch
  setCall : SetCall
  waiters : Nat → WaitCall

def Machine.new : Machine := ⟨Latch.new, .start, fun _ => .test⟩

inductive Action where
  | store
  | notifyWaiters
  | load (waiter : Nat)
  | register (waiter : Nat)
  | wake (waiter : Nat)

def Machine.setWaiter (m : Machine) (waiter : Nat) (call : WaitCall) : Machine :=
  { m with waiters := Function.update m.waiters waiter call }

/-- The atomic steps, each taken where the call has come to it. -/
inductive MachineStep (m : Machine) : Action → Machine → Prop
  | store : m.setCall = .start →
      MachineStep m .store { m with latch := m.latch.store 1, setCall := .stored }
  | notifyWaiters : m.setCall = .stored →
      MachineStep m .notifyWaiters
        { m with setCall := .finished, waiters := fun waiter => (m.waiters waiter).notify }
  | load (waiter : Nat) : m.waiters waiter = .test →
      MachineStep m (.load waiter)
        (m.setWaiter waiter (if m.latch.isSet then .returned else .sawZero))
  | register (waiter : Nat) : m.waiters waiter = .sawZero →
      MachineStep m (.register waiter) (m.setWaiter waiter (.parked false))
  | wake (waiter : Nat) : m.waiters waiter = .parked true →
      MachineStep m (.wake waiter) (m.setWaiter waiter .test)

/-- The latch is set, nobody is going to notify any more, and a call sleeps. -/
def Lost (m : Machine) : Prop :=
  m.latch.isSet = true ∧ m.setCall = .finished ∧ ∃ waiter, m.waiters waiter = .parked false

/-- A future is only created while the call of `set` has not notified yet. -/
def RegistersInTime (m : Machine) (action : Action) : Prop :=
  ∀ waiter, action = .register waiter → m.setCall ≠ .finished

theorem notify_ne_parked (call : WaitCall) : call.notify ≠ .parked false := by
  cases call <;> simp [WaitCall.notify]

theorem setWaiter_ne_parked {m : Machine} {waiter : Nat} {call : WaitCall}
    (hcall : call ≠ .parked false) (h : ∀ w, m.waiters w ≠ .parked false) (w : Nat) :
    (m.setWaiter waiter call).waiters w ≠ .parked false := by
  change Function.update m.waiters waiter call w ≠ .parked false
  rw [Function.update_apply]
  split
  · exact hcall
  · exact h w

/-- The flag is up once it was stored, and no call sleeps once everybody was notified. -/
structure Awake (m : Machine) : Prop where
  isSet : m.setCall ≠ .start → m.latch.isSet = true
  not_parked : m.setCall = .finished → ∀ waiter, m.waiters waiter ≠ .parked false

theorem awake_new : Awake Machine.new :=
  ⟨fun h => absurd rfl h, by simp [Machine.new]⟩

theorem isSet_step {m m' : Machine} {action : Action} (h : MachineStep m action m')
    (hset : m.setCall ≠ .start → m.latch.isSet = true) :
    m'.setCall ≠ .start → m'.latch.isSet = true := by
  cases h with
  | store _ => exact fun _ => rfl
  | notifyWaiters hstored =>
      intro _
      exact hset (by simp [hstored])
  | load _ _ => exact hset
  | register _ _ => exact hset
  | wake _ _ => exact hset

/-- A step of an awake machine leads to an awake one exactly if it does not
create a future too late. -/
theorem awake_step_iff {m m' : Machine} {action : Action} (hm : Awake m)
    (h : MachineStep m action m') : Awake m' ↔ RegistersInTime m action := by
  have hflag := isSet_step h hm.isSet
  cases h with
  | store _ => exact iff_of_true ⟨hflag, by simp⟩ (by simp [RegistersInTime])
  | notifyWaiters _ =>
      exact iff_of_true ⟨hflag, fun _ _ => notify_ne_parked _⟩ (by simp [RegistersInTime])
  | load waiter _ =>
      refine iff_of_true ⟨hflag, ?_⟩ (by simp [RegistersInTime])
      intro hfinished
      refine setWaiter_ne_parked ?_ (hm.not_parked hfinished)
      split <;> simp
  | register waiter _ =>
      constructor
      · intro hawake _ _ hfinished
        exact hawake.not_parked hfinished waiter (Function.update_self _ _ _)
      · intro hintime
        exact ⟨hflag, fun hfinished => absurd hfinished (hintime waiter rfl)⟩
  | wake waiter _ =>
      refine iff_of_true ⟨hflag, ?_⟩ (by simp [RegistersInTime])
      intro hfinished
      exact setWaiter_ne_parked (by simp) (hm.not_parked hfinished)

theorem not_lost_iff_awake {m : Machine} (hset : m.setCall ≠ .start → m.latch.isSet = true) :
    ¬ Lost m ↔ Awake m := by
  constructor
  · intro h
    refine ⟨hset, ?_⟩
    intro hfinished waiter hparked
    exact h ⟨hset (by simp [hfinished]), hfinished, waiter, hparked⟩
  · rintro hm ⟨_, hfinished, waiter, hparked⟩
    exact hm.not_parked hfinished waiter hparked

/-- In every run, no state reached has a lost waiter exactly if every future is
created before the waiters are notified. -/
theorem run_not_lost_iff {trace : List (Transition Machine Action)} {m : Machine}
    (hrun : Run MachineStep Machine.new trace m) :
    (∀ tr ∈ trace, ¬ Lost tr.target) ↔ ∀ tr ∈ trace, RegistersInTime tr.source tr.label := by
  have hflags := (Run.invariant_of_step (fun m => m.setCall ≠ .start → m.latch.isSet = true)
    (fun _ _ _ hset h => isSet_step h hset) hrun awake_new.isSet).2
  rw [← Run.invariant_iff Awake RegistersInTime (fun _ _ _ hm h => awake_step_iff hm h) hrun
    awake_new]
  constructor
  · intro h tr htr
    exact (not_lost_iff_awake (hflags tr htr).2).mp (h tr htr)
  · intro h tr htr
    exact (not_lost_iff_awake (hflags tr htr).2).mpr (h tr htr)

section OneWaiter

/-- Waiter 0 at `call`, and no other one begun. -/
def oneWaiter (state : Int32) (setCall : SetCall) (call : WaitCall) : Machine :=
  ⟨⟨state⟩, setCall, Function.update (fun _ => .test) 0 call⟩

variable {state : Int32} {setCall : SetCall} {call : WaitCall}

theorem waiters_oneWaiter : (oneWaiter state setCall call).waiters 0 = call := by
  change Function.update (fun _ => WaitCall.test) 0 call 0 = call
  exact Function.update_self _ _ _

theorem setWaiter_oneWaiter (call' : WaitCall) :
    (oneWaiter state setCall call).setWaiter 0 call' = oneWaiter state setCall call' := by
  simp [oneWaiter, Machine.setWaiter]

theorem oneWaiter_new : Machine.new = oneWaiter 0 .start .test := by
  simp [oneWaiter, Machine.new, Latch.new]

theorem load_zero : MachineStep (oneWaiter 0 setCall .test) (.load 0)
    (oneWaiter 0 setCall .sawZero) := by
  have hstep := MachineStep.load (m := oneWaiter 0 setCall .test) 0 waiters_oneWaiter
  rwa [setWaiter_oneWaiter] at hstep

theorem register_step : MachineStep (oneWaiter state setCall .sawZero) (.register 0)
    (oneWaiter state setCall (.parked false)) := by
  have hstep :=
    MachineStep.register (m := oneWaiter state setCall .sawZero) 0 waiters_oneWaiter
  rwa [setWaiter_oneWaiter] at hstep

theorem store_step : MachineStep (oneWaiter 0 .start call) .store (oneWaiter 1 .stored call) :=
  .store rfl

theorem notifyWaiters_step : MachineStep (oneWaiter 1 .stored call) .notifyWaiters
    (oneWaiter 1 .finished call.notify) := by
  have hstep := MachineStep.notifyWaiters (m := oneWaiter 1 .stored call) rfl
  have hwaiters : (fun waiter => ((oneWaiter 1 .stored call).waiters waiter).notify) =
      Function.update (fun _ => .test) 0 call.notify := by
    funext waiter
    simp only [oneWaiter, Function.update_apply]
    split <;> rfl
  rwa [hwaiters] at hstep

/-- A waiter that looked before the store and goes to sleep after the notification. -/
theorem late_waiter_lost : ∃ trace m, Run MachineStep Machine.new trace m ∧ Lost m := by
  have hrun : Run MachineStep (oneWaiter 0 .start .test) _
      (oneWaiter 1 .finished (.parked false)) :=
    Run.cons load_zero (Run.cons store_step (Run.cons notifyWaiters_step
      (Run.cons register_step (Run.nil _))))
  rw [oneWaiter_new]
  exact ⟨_, _, hrun, rfl, rfl, 0, waiters_oneWaiter⟩

/-- A waiter that sleeps when it is notified. -/
theorem early_waiter_not_lost :
    ∃ trace, Run MachineStep Machine.new trace (oneWaiter 1 .finished (.parked true)) ∧
      ∀ tr ∈ trace, ¬ Lost tr.target := by
  have hrun : Run MachineStep (oneWaiter 0 .start .test) _
      (oneWaiter 1 .finished (.parked true)) :=
    Run.cons load_zero (Run.cons register_step (Run.cons store_step
      (Run.cons notifyWaiters_step (Run.nil _))))
  rw [← oneWaiter_new] at hrun
  refine ⟨_, hrun, (run_not_lost_iff hrun).mpr ?_⟩
  simp [RegistersInTime, oneWaiter, Machine.new]

end OneWaiter

end PostgressRs.Concurrency.LatchWaiters
