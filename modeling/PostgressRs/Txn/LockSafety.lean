import PostgressRs.Lib.Transitions
import PostgressRs.Txn.LockTable

/-!
Which locks can be held together, over runs of the lock manager's calls.
-/

namespace PostgressRs.Txn.LockSafety

open PostgressRs.Lib.Procedure
open PostgressRs.Lib.Transitions
open PostgressRs.Txn.LockTable
open PostgressRs.Txn.TransactionTable
open PostgressRs.Types

inductive LockCall where
  | acquireTable (xid : TransactionId) (relationOid : Oid) (mode : LockMode)
  | acquireRow (xid : TransactionId) (relationOid : Oid) (pageId : UInt32) (tupleOffset : UInt16)
      (mode : LockMode)
  | releaseTable (xid : TransactionId) (relationOid : Oid)
  | releaseRow (xid : TransactionId) (relationOid : Oid) (pageId : UInt32) (tupleOffset : UInt16)
  | releaseAll (xid : TransactionId)

def LockCall.run : LockCall → Proc LockManager Unit
  | acquireTable xid relationOid mode => acquireTableLock xid relationOid mode
  | acquireRow xid relationOid pageId tupleOffset mode =>
      acquireRowLock xid relationOid pageId tupleOffset mode
  | releaseTable xid relationOid => releaseTableLock xid relationOid
  | releaseRow xid relationOid pageId tupleOffset =>
      releaseRowLock xid relationOid pageId tupleOffset
  | releaseAll xid => releaseAllLocks xid

/-- A refused call changes the manager too: it is queued. -/
def LockStep (mgr : LockManager) (call : LockCall) (mgr' : LockManager) : Prop :=
  (call.run mgr).state? = some mgr'

/-- No call panics, so that there is a state after it. -/
def after (mgr : LockManager) (call : LockCall) : LockManager :=
  (call.run mgr).state?.getD mgr

theorem lockStep_after (mgr : LockManager) (call : LockCall) :
    LockStep mgr call (after mgr call) := by
  unfold LockStep after
  cases call with
  | acquireTable xid relationOid mode =>
      simp only [LockCall.run, acquireTableLock]
      split
      · rfl
      · rfl
  | acquireRow xid relationOid pageId tupleOffset mode =>
      simp only [LockCall.run, acquireRowLock]
      split
      · rfl
      · rfl
  | releaseTable xid relationOid => rfl
  | releaseRow xid relationOid pageId tupleOffset => rfl
  | releaseAll xid => rfl

/-- Two calls on a new manager. -/
theorem run_two (call call' : LockCall) :
    Run LockStep LockManager.new
      [⟨LockManager.new, call, after LockManager.new call⟩,
        ⟨after LockManager.new call, call', after (after LockManager.new call) call'⟩]
      (after (after LockManager.new call) call') :=
  Run.cons (lockStep_after _ _) (Run.cons (lockStep_after _ _) (Run.nil _))

section Lists

variable {κ : Type} [DecidableEq κ]

/-- What a call does to the lock lists of one kind of object: a granted request
adds an entry that no other transaction's entry conflicts with, everything else
adds nothing. -/
def Changes (locks locks' : LockMap κ) : Prop :=
  (∀ key, holders locks' key ⊆ holders locks key) ∨
    ∃ key xid mode,
      (∀ existing ∈ holders locks key, existing.holder ≠ xid →
        mode.conflictsWith existing.mode = false) ∧
      holders locks' = Function.update (holders locks) key (holders locks key ++ [⟨xid, mode⟩])

theorem changes_request (locks : LockMap κ) (key : κ) (xid : TransactionId) (mode : LockMode) :
    Changes locks (request locks key xid mode).1 := by
  have hholders := holders_request locks key xid mode
  cases hgranted : (request locks key xid mode).2 with
  | false =>
      rw [hgranted, if_neg Bool.false_ne_true] at hholders
      refine Or.inl ?_
      intro key'
      rw [hholders]
      exact List.Subset.refl _
  | true =>
      rw [hgranted, if_pos rfl] at hholders
      exact Or.inr ⟨key, xid, mode, request_granted.mp hgranted, hholders⟩

theorem changes_refl (locks : LockMap κ) : Changes locks locks :=
  Or.inl fun _ => List.Subset.refl _

/-- No two transactions hold conflicting modes on one object. -/
def NoConflict (locks : LockMap κ) : Prop :=
  ∀ key, ∀ l ∈ holders locks key, ∀ l' ∈ holders locks key, l.holder ≠ l'.holder →
    l.mode.conflictsWith l'.mode = false

theorem noConflict_empty : NoConflict (∅ : LockMap κ) := by
  intro key l hl
  simp [holders] at hl

/-- A request is checked in one direction only; the table is symmetric. -/
theorem noConflict_changes {locks locks' : LockMap κ} (h : NoConflict locks)
    (hchanges : Changes locks locks') : NoConflict locks' := by
  rcases hchanges with hsubset | ⟨key, xid, mode, hfree, hholders⟩
  · intro key l hl l' hl'
    exact h key l (hsubset key hl) l' (hsubset key hl')
  · intro key' l hl l' hl' hother
    rw [hholders] at hl hl'
    by_cases hkey : key' = key
    · subst hkey
      rw [Function.update_self] at hl hl'
      rcases List.mem_append.mp hl with hl | hl <;> rcases List.mem_append.mp hl' with hl' | hl'
      · exact h key' l hl l' hl' hother
      · rw [List.mem_singleton.mp hl'] at hother ⊢
        rw [LockMode.conflictsWith_comm]
        exact hfree l hl hother
      · rw [List.mem_singleton.mp hl] at hother ⊢
        exact hfree l' hl' (Ne.symm hother)
      · rw [List.mem_singleton.mp hl, List.mem_singleton.mp hl'] at hother
        exact absurd rfl hother
    · rw [Function.update_of_ne hkey] at hl hl'
      exact h key' l hl l' hl' hother

end Lists

theorem acquireTableLock_cases {mgr mgr' : LockManager} {xid : TransactionId} {relationOid : Oid}
    {mode : LockMode} (h : (acquireTableLock xid relationOid mode mgr).state? = some mgr') :
    mgr'.tableLocks = (request mgr.tableLocks relationOid xid mode).1 ∧
      mgr'.rowLocks = mgr.rowLocks := by
  unfold acquireTableLock at h
  rcases hrequest : request mgr.tableLocks relationOid xid mode with ⟨tableLocks, granted⟩
  rw [hrequest] at h
  cases granted with
  | true =>
      cases h
      exact ⟨rfl, rfl⟩
  | false =>
      cases h
      exact ⟨rfl, rfl⟩

theorem acquireRowLock_cases {mgr mgr' : LockManager} {xid : TransactionId} {relationOid : Oid}
    {pageId : UInt32} {tupleOffset : UInt16} {mode : LockMode}
    (h : (acquireRowLock xid relationOid pageId tupleOffset mode mgr).state? = some mgr') :
    mgr'.tableLocks = mgr.tableLocks ∧
      mgr'.rowLocks = (request mgr.rowLocks (relationOid, pageId, tupleOffset) xid mode).1 := by
  unfold acquireRowLock at h
  rcases hrequest : request mgr.rowLocks (relationOid, pageId, tupleOffset) xid mode with
    ⟨rowLocks, granted⟩
  rw [hrequest] at h
  cases granted with
  | true =>
      cases h
      exact ⟨rfl, rfl⟩
  | false =>
      cases h
      exact ⟨rfl, rfl⟩

theorem acquireTableLock_err {mgr mgr' : LockManager} {xid : TransactionId} {relationOid : Oid}
    {mode : LockMode} {e : String} (h : acquireTableLock xid relationOid mode mgr = .err e mgr') :
    (request mgr.tableLocks relationOid xid mode).2 = false := by
  unfold acquireTableLock at h
  rcases hrequest : request mgr.tableLocks relationOid xid mode with ⟨tableLocks, granted⟩
  rw [hrequest] at h
  cases granted with
  | true => cases h
  | false => rfl

theorem acquireRowLock_err {mgr mgr' : LockManager} {xid : TransactionId} {relationOid : Oid}
    {pageId : UInt32} {tupleOffset : UInt16} {mode : LockMode} {e : String}
    (h : acquireRowLock xid relationOid pageId tupleOffset mode mgr = .err e mgr') :
    (request mgr.rowLocks (relationOid, pageId, tupleOffset) xid mode).2 = false := by
  unfold acquireRowLock at h
  rcases hrequest : request mgr.rowLocks (relationOid, pageId, tupleOffset) xid mode with
    ⟨rowLocks, granted⟩
  rw [hrequest] at h
  cases granted with
  | true => cases h
  | false => rfl

theorem lockStep_changes {mgr mgr' : LockManager} {call : LockCall}
    (h : LockStep mgr call mgr') :
    Changes mgr.tableLocks mgr'.tableLocks ∧ Changes mgr.rowLocks mgr'.rowLocks := by
  cases call with
  | acquireTable xid relationOid mode =>
      obtain ⟨htable, hrow⟩ := acquireTableLock_cases h
      rw [htable, hrow]
      exact ⟨changes_request _ _ _ _, changes_refl _⟩
  | acquireRow xid relationOid pageId tupleOffset mode =>
      obtain ⟨htable, hrow⟩ := acquireRowLock_cases h
      rw [htable, hrow]
      exact ⟨changes_refl _, changes_request _ _ _ _⟩
  | releaseTable xid relationOid =>
      cases h
      exact ⟨Or.inl fun _ _ => mem_of_mem_release, changes_refl _⟩
  | releaseRow xid relationOid pageId tupleOffset =>
      cases h
      exact ⟨changes_refl _, Or.inl fun _ _ => mem_of_mem_release⟩
  | releaseAll xid =>
      cases h
      exact ⟨Or.inl fun _ _ => mem_of_mem_releaseEvery, Or.inl fun _ _ => mem_of_mem_releaseEvery⟩

theorem holders_refused {κ : Type} [DecidableEq κ] {locks : LockMap κ} {key : κ}
    {xid : TransactionId} {mode : LockMode} (h : (request locks key xid mode).2 = false) :
    holders (request locks key xid mode).1 = holders locks := by
  rw [holders_request, h, if_neg Bool.false_ne_true]

/-- The locks that are held do not change when a call is refused. -/
theorem refused_holders {mgr mgr' : LockManager} {call : LockCall} {e : String}
    (h : call.run mgr = .err e mgr') :
    holders mgr'.tableLocks = holders mgr.tableLocks ∧
      holders mgr'.rowLocks = holders mgr.rowLocks := by
  have hstate : (call.run mgr).state? = some mgr' := by
    rw [h]
    rfl
  cases call with
  | acquireTable xid relationOid mode =>
      obtain ⟨htable, hrow⟩ := acquireTableLock_cases hstate
      rw [htable, hrow]
      exact ⟨holders_refused (acquireTableLock_err h), rfl⟩
  | acquireRow xid relationOid pageId tupleOffset mode =>
      obtain ⟨htable, hrow⟩ := acquireRowLock_cases hstate
      rw [htable, hrow]
      exact ⟨rfl, holders_refused (acquireRowLock_err h)⟩
  | releaseTable xid relationOid => cases h
  | releaseRow xid relationOid pageId tupleOffset => cases h
  | releaseAll xid => cases h

/-- Over every run, no two transactions hold conflicting modes on one relation or
one row, and a refused call leaves the locks that are held alone. -/
theorem locks_compatible {trace : List (Transition LockManager LockCall)} {mgr : LockManager}
    (hrun : Run LockStep LockManager.new trace mgr) :
    (∀ tr ∈ trace, NoConflict tr.target.tableLocks ∧ NoConflict tr.target.rowLocks) ∧
    ∀ tr ∈ trace, ∀ e, tr.label.run tr.source = .err e tr.target →
      holders tr.target.tableLocks = holders tr.source.tableLocks ∧
        holders tr.target.rowLocks = holders tr.source.rowLocks := by
  have hinit : NoConflict LockManager.new.tableLocks ∧ NoConflict LockManager.new.rowLocks :=
    ⟨noConflict_empty, noConflict_empty⟩
  have hinv := Run.invariant_of_step
    (fun mgr => NoConflict mgr.tableLocks ∧ NoConflict mgr.rowLocks)
    (fun mgr call mgr' h hstep =>
      ⟨noConflict_changes h.1 (lockStep_changes hstep).1,
        noConflict_changes h.2 (lockStep_changes hstep).2⟩) hrun hinit
  refine ⟨fun tr htr => (hinv.2 tr htr).2, ?_⟩
  intro tr _ e hrefused
  exact refused_holders hrefused

theorem locks_compatible_share :
    ∃ mgr mgr', Run LockStep LockManager.new
        [⟨LockManager.new, .acquireTable ⟨1⟩ ⟨100⟩ .accessShare, mgr⟩,
          ⟨mgr, .acquireTable ⟨2⟩ ⟨100⟩ .exclusive, mgr'⟩] mgr' ∧
      holders mgr.tableLocks ⟨100⟩ = [⟨⟨1⟩, .accessShare⟩] ∧
      holders mgr'.tableLocks = holders mgr.tableLocks := by
  have hrun := run_two (.acquireTable ⟨1⟩ ⟨100⟩ .accessShare) (.acquireTable ⟨2⟩ ⟨100⟩ .exclusive)
  refine ⟨_, _, hrun, by decide, ?_⟩
  exact ((locks_compatible hrun).2 _ (List.mem_cons_of_mem _ List.mem_cons_self) _ rfl).1

section Exclusion

/-- The modes of a table lock that are meant for one transaction at a time. -/
def Exclusive (mode : LockMode) : Prop :=
  mode = .accessExclusive ∨ mode = .exclusive ∨ mode = .shareRowExclusive

instance decidableExclusive (mode : LockMode) : Decidable (Exclusive mode) :=
  inferInstanceAs (Decidable (_ ∨ _ ∨ _))

/-- While a transaction holds an exclusive mode on a relation, no other does. -/
def Excludes (locks : LockMap Oid) : Prop :=
  ∀ relationOid, ∀ l ∈ holders locks relationOid, ∀ l' ∈ holders locks relationOid,
    Exclusive l.mode → Exclusive l'.mode → l.holder = l'.holder

/-- The call does not ask for an exclusive mode that another transaction holds on
the relation, or is refused because of another lock. -/
def AsksFreeMode (mgr : LockManager) : LockCall → Prop
  | .acquireTable xid relationOid mode =>
      Exclusive mode → (∃ l ∈ holders mgr.tableLocks relationOid, l.holder ≠ xid ∧ l.mode = mode) →
        ∃ l ∈ holders mgr.tableLocks relationOid, l.holder ≠ xid ∧ mode.conflictsWith l.mode
  | _ => True

/-- Two exclusive modes conflict, except a mode with itself. -/
theorem conflictsWith_exclusive {mode mode' : LockMode} (h : Exclusive mode)
    (h' : Exclusive mode') : mode.conflictsWith mode' = false ↔ mode = mode' := by
  rcases h with rfl | rfl | rfl <;> rcases h' with rfl | rfl | rfl <;> decide

theorem Excludes.subset {locks locks' : LockMap Oid} (h : Excludes locks)
    (hsubset : ∀ key, holders locks' key ⊆ holders locks key) : Excludes locks' := by
  intro relationOid l hl l' hl'
  exact h relationOid l (hsubset _ hl) l' (hsubset _ hl')

/-- A granted request keeps the exclusion exactly if no other transaction holds
an exclusive mode there when it asks for one. -/
theorem excludes_granted_iff {locks locks' : LockMap Oid} {relationOid : Oid}
    {xid : TransactionId} {mode : LockMode} (h : Excludes locks)
    (hholders : holders locks' = Function.update (holders locks) relationOid
      (holders locks relationOid ++ [⟨xid, mode⟩])) :
    Excludes locks' ↔
      (Exclusive mode → ∀ l ∈ holders locks relationOid, Exclusive l.mode → l.holder = xid) := by
  constructor
  · intro hexcludes hmode l hl hexclusive
    refine hexcludes relationOid l ?_ ⟨xid, mode⟩ ?_ hexclusive hmode
    · rw [hholders, Function.update_self]
      exact List.mem_append_left _ hl
    · rw [hholders, Function.update_self]
      exact List.mem_append_right _ List.mem_cons_self
  · intro hfree key l hl l' hl' hmode hmode'
    rw [hholders] at hl hl'
    by_cases hkey : key = relationOid
    · subst hkey
      rw [Function.update_self] at hl hl'
      rcases List.mem_append.mp hl with hl | hl <;> rcases List.mem_append.mp hl' with hl' | hl'
      · exact h key l hl l' hl' hmode hmode'
      · rw [List.mem_singleton.mp hl'] at hmode' ⊢
        exact hfree hmode' l hl hmode
      · rw [List.mem_singleton.mp hl] at hmode ⊢
        exact (hfree hmode l' hl' hmode').symm
      · rw [List.mem_singleton.mp hl, List.mem_singleton.mp hl']
    · rw [Function.update_of_ne hkey] at hl hl'
      exact h key l hl l' hl' hmode hmode'

theorem excludes_acquire_iff {mgr mgr' : LockManager} {xid : TransactionId} {relationOid : Oid}
    {mode : LockMode} (h : Excludes mgr.tableLocks)
    (hstep : LockStep mgr (.acquireTable xid relationOid mode) mgr') :
    Excludes mgr'.tableLocks ↔ AsksFreeMode mgr (.acquireTable xid relationOid mode) := by
  obtain ⟨htable, _⟩ := acquireTableLock_cases hstep
  have hholders := holders_request mgr.tableLocks relationOid xid mode
  rw [← htable] at hholders
  cases hgranted : (request mgr.tableLocks relationOid xid mode).2 with
  | false =>
      rw [hgranted, if_neg Bool.false_ne_true] at hholders
      have hsame : Excludes mgr'.tableLocks := by
        unfold Excludes
        rw [hholders]
        exact h
      refine ⟨fun _ _ _ => ?_, fun _ => hsame⟩
      have hconflict := mt request_granted.mpr (by rw [hgranted]; exact Bool.false_ne_true)
      push Not at hconflict
      obtain ⟨l, hl, hother, hmode⟩ := hconflict
      exact ⟨l, hl, hother, by simpa using hmode⟩
  | true =>
      rw [hgranted, if_pos rfl] at hholders
      rw [excludes_granted_iff h hholders]
      have hfree := request_granted.mp hgranted
      constructor
      · rintro hexclusive hmode ⟨l, hl, hother, rfl⟩
        exact absurd (hexclusive hmode l hl hmode) hother
      · intro hasks hmode l hl hexclusive
        by_contra hother
        have heq := (conflictsWith_exclusive hmode hexclusive).mp (hfree l hl hother)
        obtain ⟨l', hl', hother', hconflict⟩ := hasks hmode ⟨l, hl, hother, heq.symm⟩
        rw [hfree l' hl' hother'] at hconflict
        cases hconflict

theorem excludes_step_iff {mgr mgr' : LockManager} {call : LockCall}
    (h : Excludes mgr.tableLocks) (hstep : LockStep mgr call mgr') :
    Excludes mgr'.tableLocks ↔ AsksFreeMode mgr call := by
  cases call with
  | acquireTable xid relationOid mode => exact excludes_acquire_iff h hstep
  | acquireRow xid relationOid pageId tupleOffset mode =>
      rw [(acquireRowLock_cases hstep).1]
      exact iff_of_true h trivial
  | releaseTable xid relationOid =>
      cases hstep
      exact iff_of_true (h.subset fun _ _ => mem_of_mem_release) trivial
  | releaseRow xid relationOid pageId tupleOffset =>
      cases hstep
      exact iff_of_true h trivial
  | releaseAll xid =>
      cases hstep
      exact iff_of_true (h.subset fun _ _ => mem_of_mem_releaseEvery) trivial

/-- In a run, the exclusive modes exclude each other in every state exactly if no
transaction asks for an exclusive mode that another one holds on the relation,
unless it is refused because of another lock. -/
theorem exclusive_locks_iff {trace : List (Transition LockManager LockCall)} {mgr : LockManager}
    (hrun : Run LockStep LockManager.new trace mgr) :
    (∀ tr ∈ trace, Excludes tr.target.tableLocks) ↔
      ∀ tr ∈ trace, AsksFreeMode tr.source tr.label := by
  have hinit : Excludes LockManager.new.tableLocks := by
    intro relationOid l hl
    simp [holders, LockManager.new] at hl
  exact Run.invariant_iff (fun mgr => Excludes mgr.tableLocks) AsksFreeMode
    (fun mgr call mgr' h hstep => excludes_step_iff h hstep) hrun hinit

theorem accessExclusive_twice :
    ∃ mgr mgr', Run LockStep LockManager.new
        [⟨LockManager.new, .acquireTable ⟨1⟩ ⟨100⟩ .accessExclusive, mgr⟩,
          ⟨mgr, .acquireTable ⟨2⟩ ⟨100⟩ .accessExclusive, mgr'⟩] mgr' ∧
      ¬ Excludes mgr'.tableLocks := by
  have hrun := run_two (.acquireTable ⟨1⟩ ⟨100⟩ .accessExclusive)
    (.acquireTable ⟨2⟩ ⟨100⟩ .accessExclusive)
  refine ⟨_, _, hrun, ?_⟩
  intro hexcludes
  have hsame := hexcludes ⟨100⟩ ⟨⟨1⟩, .accessExclusive⟩ (by decide) ⟨⟨2⟩, .accessExclusive⟩
    (by decide) (by decide) (by decide)
  revert hsame
  decide

theorem exclusive_locks_iff_refused :
    ∃ mgr mgr', Run LockStep LockManager.new
        [⟨LockManager.new, .acquireTable ⟨1⟩ ⟨100⟩ .exclusive, mgr⟩,
          ⟨mgr, .acquireTable ⟨2⟩ ⟨100⟩ .accessExclusive, mgr'⟩] mgr' ∧
      Excludes mgr'.tableLocks := by
  have hrun := run_two (.acquireTable ⟨1⟩ ⟨100⟩ .exclusive)
    (.acquireTable ⟨2⟩ ⟨100⟩ .accessExclusive)
  refine ⟨_, _, hrun, (exclusive_locks_iff hrun).mpr ?_ _
    (List.mem_cons_of_mem _ List.mem_cons_self)⟩
  intro tr htr
  rcases List.mem_cons.mp htr with rfl | htr
  · rintro _ ⟨l, hl, _⟩
    simp [holders, LockManager.new] at hl
  · rw [List.mem_singleton.mp htr]
    intro _ _
    exact ⟨⟨⟨1⟩, .exclusive⟩, by decide, by decide, by decide⟩

end Exclusion

end PostgressRs.Txn.LockSafety
