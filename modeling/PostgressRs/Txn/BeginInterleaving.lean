import PostgressRs.Lib.Transitions
import PostgressRs.Txn.TransactionTable

/-!
Concurrent calls of the transaction manager.  `begin` takes three atomic steps
without a common lock: it draws its xid, reads the active map, and enters
itself into the map.  The other calls take one step each.
-/

namespace PostgressRs.Txn.BeginInterleaving

open PostgressRs.Lib.Transitions
open PostgressRs.Txn.TransactionTable

/-- A call of `begin` that has not returned. -/
inductive BeginCall where
  | allocated (xid : TransactionId) (isolation : IsolationLevel)
  | snapped (xid : TransactionId) (isolation : IsolationLevel) (snapshot : Snapshot)

def BeginCall.xid : BeginCall → TransactionId
  | .allocated xid _ => xid
  | .snapped xid _ _ => xid

/-- The manager and the calls of `begin` that are under way. -/
structure Machine where
  mgr : TransactionManager
  calls : List BeginCall

def Machine.new : Machine := ⟨TransactionManager.new, []⟩

inductive Action where
  | fetchAdd (isolation : IsolationLevel)
  | createSnapshot (call : Nat)
  | insertActive (call : Nat)
  | commit (xid : TransactionId)
  | rollback (xid : TransactionId)
  | getSnapshotForStatement (xid : TransactionId)

/-- The transaction that `begin` enters into the map. -/
def begunTransaction (xid : TransactionId) (isolation : IsolationLevel) (snapshot : Snapshot) :
    Transaction :=
  match isolation with
  | .readUncommitted | .readCommitted => Transaction.new xid isolation
  | .repeatableRead | .serializable =>
      { Transaction.new xid isolation with snapshot := some snapshot }

def step (m : Machine) : Action → Option Machine
  | .fetchAdd isolation =>
      some
        { mgr := { m.mgr with nextXid := m.mgr.nextXid + 1 }
          calls := m.calls ++ [.allocated ⟨m.mgr.nextXid⟩ isolation] }
  | .createSnapshot call =>
      match m.calls[call]? with
      | some (.allocated xid isolation) =>
          some
            { m with
              calls := m.calls.set call (.snapped xid isolation (m.mgr.createSnapshot xid)) }
      | _ => none
  | .insertActive call =>
      match m.calls[call]? with
      | some (.snapped xid isolation snapshot) =>
          some
            { mgr :=
                { m.mgr with
                  active := m.mgr.active.insert xid (begunTransaction xid isolation snapshot) }
              calls := m.calls.eraseIdx call }
      | _ => none
  | .commit xid => some { m with mgr := (m.mgr.commit xid).2 }
  | .rollback xid => some { m with mgr := (m.mgr.rollback xid).2 }
  | .getSnapshotForStatement _ => some m

def MachineStep (m : Machine) (action : Action) (m' : Machine) : Prop := step m action = some m'

/-- The snapshot that a step takes. -/
def takenSnapshot (m : Machine) : Action → Option Snapshot
  | .createSnapshot call =>
      match m.calls[call]? with
      | some (.allocated xid _) => some (m.mgr.createSnapshot xid)
      | _ => none
  | .getSnapshotForStatement xid => some (m.mgr.getSnapshotForStatement xid)
  | _ => none

/-- Three steps that no other call interrupts are `begin`. -/
theorem begin_eq_steps (mgr : TransactionManager) (isolation : IsolationLevel) :
    ([Action.fetchAdd isolation, .createSnapshot 0, .insertActive 0].foldlM step ⟨mgr, []⟩) =
      some ⟨(mgr.begin isolation).2, []⟩ := by
  cases isolation with
  | readUncommitted => rfl
  | readCommitted => rfl
  | repeatableRead => rfl
  | serializable => rfl

section Unfinished

/-- The step allocates `xid`. -/
def Allocates (tr : Transition Machine Action) (xid : TransactionId) : Prop :=
  (∃ isolation, tr.label = .fetchAdd isolation) ∧ xid = ⟨tr.source.mgr.nextXid⟩

/-- The step commits or rolls back `xid`. -/
def Ends (tr : Transition Machine Action) (xid : TransactionId) : Prop :=
  (tr.label = .commit xid ∨ tr.label = .rollback xid) ∧ xid ∈ tr.source.mgr.active

/-- `xid` was allocated, and not committed or rolled back since. -/
def Unfinished (past : List (Transition Machine Action)) (xid : TransactionId) : Prop :=
  ∃ before tr after, past = before ++ tr :: after ∧ Allocates tr xid ∧
    ∀ tr' ∈ after, ¬Ends tr' xid

theorem unfinished_snoc {past : List (Transition Machine Action)}
    {tr : Transition Machine Action} {xid : TransactionId} (h : Unfinished (past ++ [tr]) xid) :
    Allocates tr xid ∨ Unfinished past xid ∧ ¬Ends tr xid := by
  obtain ⟨before, tr', after, heq, hallocates, hends⟩ := h
  rcases List.eq_nil_or_concat after with rfl | ⟨after, last, rfl⟩
  · obtain ⟨-, hlast⟩ := List.append_inj' heq rfl
    cases hlast
    exact Or.inl hallocates
  · rw [List.concat_eq_append, ← List.cons_append, ← List.append_assoc] at heq
    obtain ⟨hpast, hlast⟩ := List.append_inj' heq rfl
    cases hlast
    refine Or.inr ⟨⟨before, tr', after, hpast, hallocates, fun tr htr => hends tr ?_⟩,
      hends tr ?_⟩
    · rw [List.concat_eq_append]
      exact List.mem_append_left _ htr
    · rw [List.concat_eq_append]
      exact List.mem_append_right _ (List.mem_singleton_self _)

end Unfinished

section Coverage

/-- Every unfinished transaction is in the map or still on its way there. -/
def Accounted (past : List (Transition Machine Action)) (m : Machine) : Prop :=
  ∀ xid, Unfinished past xid → xid ∈ m.mgr.active ∨ ∃ call ∈ m.calls, call.xid = xid

theorem mem_finish {mgr : TransactionManager} {xid other : TransactionId}
    (h : other ∈ mgr.active) (hne : other ≠ xid) : other ∈ (mgr.finish xid).2.active := by
  unfold TransactionManager.finish
  cases mgr.active.lookup xid with
  | none => exact h
  | some txn => exact AList.mem_erase.mpr ⟨hne, h⟩

theorem accounted_finish {past : List (Transition Machine Action)} {m : Machine} {action : Action}
    {xid : TransactionId} (h : Accounted past m)
    (haction : action = .commit xid ∨ action = .rollback xid) :
    Accounted (past ++ [⟨m, action, { m with mgr := (m.mgr.finish xid).2 }⟩])
      { m with mgr := (m.mgr.finish xid).2 } := by
  intro other hother
  rcases unfinished_snoc hother with ⟨⟨isolation, hlabel⟩, _⟩ | ⟨hpast, hends⟩
  · rcases haction with rfl | rfl
    · cases hlabel
    · cases hlabel
  · rcases h other hpast with hactive | hcall
    · by_cases hne : other = xid
      · subst hne
        exact absurd ⟨haction, hactive⟩ hends
      · exact Or.inl (mem_finish hactive hne)
    · exact Or.inr hcall

theorem accounted_step {past : List (Transition Machine Action)} {m m' : Machine}
    {action : Action} (h : Accounted past m) (hstep : MachineStep m action m') :
    Accounted (past ++ [⟨m, action, m'⟩]) m' := by
  unfold MachineStep step at hstep
  cases action with
  | fetchAdd isolation =>
      cases hstep
      intro xid hxid
      rcases unfinished_snoc hxid with ⟨_, rfl⟩ | ⟨hpast, _⟩
      · exact Or.inr ⟨_, List.mem_append_right _ (List.mem_singleton_self _), rfl⟩
      · rcases h xid hpast with hactive | ⟨call, hcall, heq⟩
        · exact Or.inl hactive
        · exact Or.inr ⟨call, List.mem_append_left _ hcall, heq⟩
  | createSnapshot i =>
      simp only at hstep
      split at hstep
      · rename_i xid isolation hcall
        cases hstep
        intro other hother
        rcases unfinished_snoc hother with ⟨⟨_, hlabel⟩, _⟩ | ⟨hpast, _⟩
        · cases hlabel
        · rcases h other hpast with hactive | ⟨call, hmem, rfl⟩
          · exact Or.inl hactive
          · -- the call that took its snapshot keeps its xid
            obtain ⟨j, hj⟩ := List.mem_iff_getElem?.mp hmem
            by_cases hji : i = j
            · subst hji
              rw [hcall] at hj
              cases hj
              have hlt : i < m.calls.length := (List.getElem?_eq_some_iff.mp hcall).1
              exact Or.inr ⟨_, List.mem_set hlt _, rfl⟩
            · refine Or.inr ⟨call, List.mem_iff_getElem?.mpr ⟨j, ?_⟩, rfl⟩
              rw [List.getElem?_set_ne hji]
              exact hj
      · cases hstep
  | insertActive i =>
      simp only at hstep
      split at hstep
      · rename_i xid isolation snapshot hcall
        cases hstep
        intro other hother
        rcases unfinished_snoc hother with ⟨⟨_, hlabel⟩, _⟩ | ⟨hpast, _⟩
        · cases hlabel
        · rcases h other hpast with hactive | ⟨call, hmem, rfl⟩
          · exact Or.inl ((AList.mem_insert _).mpr (Or.inr hactive))
          · obtain ⟨j, hj⟩ := List.mem_iff_getElem?.mp hmem
            by_cases hji : j = i
            · subst hji
              rw [hcall] at hj
              cases hj
              exact Or.inl ((AList.mem_insert _).mpr (Or.inl rfl))
            · exact Or.inr ⟨call, List.mem_eraseIdx_iff_getElem?.mpr ⟨j, hji, hj⟩, rfl⟩
      · cases hstep
  | commit xid =>
      cases hstep
      exact accounted_finish h (Or.inl rfl)
  | rollback xid =>
      cases hstep
      exact accounted_finish h (Or.inr rfl)
  | getSnapshotForStatement xid =>
      cases hstep
      intro other hother
      rcases unfinished_snoc hother with ⟨⟨_, hlabel⟩, _⟩ | ⟨hpast, _⟩
      · cases hlabel
      · exact h other hpast

/-- The step takes no snapshot while a `begin` with a smaller xid is between its
first and its last step. -/
def NoGap (m : Machine) (action : Action) : Prop :=
  ∀ snapshot, takenSnapshot m action = some snapshot →
    ∀ call ∈ m.calls, ¬call.xid.val < snapshot.xid.val

theorem takenSnapshot_activeXids {m : Machine} {action : Action} {snapshot : Snapshot}
    (h : takenSnapshot m action = some snapshot) :
    snapshot.activeXids = m.mgr.active.keys := by
  unfold takenSnapshot at h
  split at h
  · split at h
    · cases h
      rfl
    · cases h
  · cases h
    rfl
  · cases h

/-- In a run whose snapshots are taken in no such gap, every snapshot covers the
older transactions that were allocated and not finished. -/
theorem snapshots_cover {m : Machine} {trace : List (Transition Machine Action)}
    (hrun : Run MachineStep Machine.new trace m)
    (hgap : ∀ tr ∈ trace, NoGap tr.source tr.label) :
    ∀ past tr rest, trace = past ++ tr :: rest →
      ∀ snapshot, takenSnapshot tr.source tr.label = some snapshot →
        ∀ xid, Unfinished past xid → xid.val < snapshot.xid.val → xid ∈ snapshot.activeXids := by
  rintro past tr rest rfl snapshot hsnapshot xid hxid hlt
  obtain ⟨hpast, _, _⟩ := Run.append_cons_inv hrun
  have hempty : Accounted [] Machine.new := by
    rintro xid ⟨before, tr, after, heq, _⟩
    simp at heq
  have haccounted := Run.invariant_history Accounted (fun _ _ => True)
    (fun past m action m' hm _ hstep => accounted_step hm hstep) hpast [] hempty
    fun _ _ => trivial
  rw [List.nil_append] at haccounted
  rw [takenSnapshot_activeXids hsnapshot]
  rcases haccounted xid hxid with hactive | ⟨call, hcall, rfl⟩
  · exact AList.mem_keys.mpr hactive
  · exact absurd hlt (hgap tr (List.mem_append_right _ List.mem_cons_self) snapshot hsnapshot call
      hcall)

theorem snapshots_cover_sequential :
    ∃ past m snapshot, Run MachineStep Machine.new past m ∧
      takenSnapshot m (.getSnapshotForStatement ⟨2⟩) = some snapshot ∧
      Unfinished past ⟨1⟩ ∧ ⟨1⟩ ∈ snapshot.activeXids := by
  have hpast : ∃ past m, Run MachineStep Machine.new past m ∧
      takenSnapshot m (.getSnapshotForStatement ⟨2⟩) = some ⟨⟨2⟩, [⟨1⟩]⟩ ∧ Unfinished past ⟨1⟩ ∧
      (∀ tr ∈ past, NoGap tr.source tr.label) ∧ NoGap m (.getSnapshotForStatement ⟨2⟩) := by
    refine ⟨[⟨_, .fetchAdd .readCommitted, _⟩, ⟨_, .createSnapshot 0, _⟩,
      ⟨_, .insertActive 0, _⟩, ⟨_, .fetchAdd .readCommitted, _⟩], _,
      Run.cons rfl (Run.cons rfl (Run.cons rfl (Run.cons rfl (Run.nil _)))), rfl,
      ⟨[], _, _, rfl, ⟨⟨_, rfl⟩, rfl⟩, ?_⟩, ?_, ?_⟩
    · rintro tr htr ⟨hlabel, -⟩
      simp only [List.mem_cons, List.not_mem_nil, or_false] at htr
      rcases htr with rfl | rfl | rfl
      · simp at hlabel
      · simp at hlabel
      · simp at hlabel
    · intro tr htr snapshot hsnapshot
      simp only [List.mem_cons, List.not_mem_nil, or_false] at htr
      rcases htr with rfl | rfl | rfl | rfl
      · cases hsnapshot
      · cases hsnapshot
        decide
      · cases hsnapshot
      · cases hsnapshot
    · intro snapshot hsnapshot
      cases hsnapshot
      decide
  obtain ⟨past, m, hrun, hsnapshot, hunfinished, hgaps, hgap⟩ := hpast
  have hlast : MachineStep m (.getSnapshotForStatement ⟨2⟩) m := rfl
  refine ⟨past, m, _, hrun, hsnapshot, hunfinished, ?_⟩
  refine snapshots_cover (hrun.append (Run.cons hlast (Run.nil m))) ?_ past _ [] rfl _ hsnapshot
    ⟨1⟩ hunfinished (by decide)
  intro tr htr
  rcases List.mem_append.mp htr with htr | htr
  · exact hgaps tr htr
  · rw [List.mem_singleton.mp htr]
    exact hgap

/-- Transaction 2 begins and takes a snapshot while transaction 1 has its xid but
is not yet in the map. -/
theorem snapshot_misses_pending_begin :
    ∃ past m snapshot, Run MachineStep Machine.new past m ∧
      takenSnapshot m (.getSnapshotForStatement ⟨2⟩) = some snapshot ∧
      Unfinished past ⟨1⟩ ∧ (1 : UInt32) < snapshot.xid.val ∧ ⟨1⟩ ∉ snapshot.activeXids := by
  refine ⟨[⟨_, .fetchAdd .readCommitted, _⟩, ⟨_, .fetchAdd .readCommitted, _⟩,
    ⟨_, .createSnapshot 1, _⟩, ⟨_, .insertActive 1, _⟩], _, _,
    Run.cons rfl (Run.cons rfl (Run.cons rfl (Run.cons rfl (Run.nil _)))), rfl,
    ⟨[], _, _, rfl, ⟨⟨_, rfl⟩, rfl⟩, ?_⟩, by decide, by decide⟩
  rintro tr htr ⟨hlabel, -⟩
  simp only [List.mem_cons, List.not_mem_nil, or_false] at htr
  rcases htr with rfl | rfl | rfl
  · simp at hlabel
  · simp at hlabel
  · simp at hlabel

end Coverage

end PostgressRs.Txn.BeginInterleaving
