import PostgressRs.Server.Connections
import PostgressRs.Server.Responses

/-!
What becomes of the transaction of a statement that fails.
-/

namespace PostgressRs.Server.FailedStatements

open PostgressRs.Executor.HeapAccess
open PostgressRs.Lib.ByteBuffer
open PostgressRs.Lib.Effects
open PostgressRs.Lib.Effects.Program
open PostgressRs.Lib.Procedure hiding ofExcept orPanic
open PostgressRs.Lib.Transitions
open PostgressRs.RelationCatalog
open PostgressRs.Protocol.Backend
open PostgressRs.Server.Connections
open PostgressRs.Server.Queries
open PostgressRs.Server.HandlerEffects
open PostgressRs.Server.QueryHandlers
open PostgressRs.Server.Responses
open PostgressRs.Server.Sessions
open PostgressRs.Storage.PageStore
open PostgressRs.Txn.TransactionTable
open PostgressRs.Types
open PostgressRs.Wal.LogIntegrity
open PostgressRs.Wal.LogRecord
open PostgressRs.Wal.WriteAheadLog

section Statements

variable {ε κ σ : Type}

/-- `INSERT`, `UPDATE` and `DELETE`, of either parser. -/
def isDml : Query ε κ → Bool
  | .insert _ _ => true
  | .update _ _ _ _ => true
  | .delete _ _ => true
  | .statement (.insert _) => true
  | .statement (.update _) => true
  | .statement (.delete _) => true
  | _ => false

/-- If an error is sent, the transaction is rolled back and no `Commit` record of it
is appended. -/
def RollsBackOnError (trace : List (Transition (Shared σ) (Event (serverEffects κ))))
    (xid : TransactionId) : Prop :=
  (∃ tr ∈ trace, ∃ message ∈ sentBy tr.label, IsError message) →
    (∀ tr ∈ trace, ∀ lsn, tr.label ≠ ⟨.append (.commit xid.val.toUInt64), .ok lsn⟩) ∧
    ∃ tr ∈ trace, ∃ answer, tr.label = ⟨.rollback xid, answer⟩

theorem work_of_isDml [TextFormat ε] {query : Query ε κ} (h : isDml query = true) :
    ∃ w, work query = some w := by
  cases query with
  | statement stmt =>
      cases stmt with
      | insert insert => exact ⟨_, rfl⟩
      | update update => exact ⟨_, rfl⟩
      | delete delete => exact ⟨_, rfl⟩
      | _ => cases h
  | insert table values => exact ⟨_, rfl⟩
  | update table column value whereClause => exact ⟨_, rfl⟩
  | delete table whereClause => exact ⟨_, rfl⟩
  | _ => cases h

/-- The effects other than a rollback. -/
def KeepsGoing (op : ServerOp κ) : Prop := ∀ xid, op ≠ .rollback xid

theorem keepsGoing_of_isAside (op : ServerOp κ) (h : IsAside op) : KeepsGoing op := by
  rintro xid rfl
  exact h.elim

theorem keepsGoing_frame : AllowsFrame (KeepsGoing : ServerOp κ → Prop) where
  begin _ _ := by simp
  append _ _ := by simp
  commit _ _ := by simp
  flush _ := by simp

/-- A statement of its own transaction is never rolled back. -/
theorem keepsGoing_inTransaction (cur : Option TransactionId)
    {w : TransactionId → ServerProgram κ Unit} (h : ∀ xid, Performs IsAside (w xid)) :
    Performs KeepsGoing (inTransaction cur w) :=
  performs_inTransaction keepsGoing_frame cur (fun xid => (h xid).mono keepsGoing_of_isAside)
    fun _ _ => by simp

variable [TextFormat ε] [Bincode] [StorageTrait σ] (executor : SelectExecutor κ σ)

/-- An error is sent exactly if the statement fails in its transaction. -/
theorem error_sent_iff {query : Query ε κ} {w : TransactionId → ServerProgram κ Unit}
    (h : work query = some w) (cur : Option TransactionId) (s : Shared σ) :
    (∃ message ∈ sent executor (handleQuery query cur) s, IsError message) ↔
      ∃ xid wasImplicitTxn s',
        run (serverMachine executor) (openTransaction cur) s = .ok (xid, wasImplicitTxn) s' ∧
        Fails executor query xid s' := by
  rw [handleQuery_of_work h]
  by_cases hopen : ∃ opened s', run (serverMachine executor) (openTransaction cur) s = .ok opened s'
  · obtain ⟨⟨xid, wasImplicitTxn⟩, s', hopen⟩ := hopen
    rw [sent_inTransaction executor w hopen]
    rcases reports_work executor h xid s' with ⟨hfails, e, hsent⟩ | ⟨hfails, hclean⟩
    · refine iff_of_true ?_ ⟨xid, wasImplicitTxn, s', hopen, hfails⟩
      rw [hsent]
      exact ⟨_, List.mem_append_left _ List.mem_cons_self, _, rfl⟩
    · refine iff_of_false ?_ ?_
      · rintro ⟨message, hmem, herror⟩
        rcases List.mem_append.mp hmem with hmem | hmem
        · exact (hclean message hmem).2 herror
        · cases hrun : run (serverMachine executor) (w xid) s' with
          | ok a t =>
              simp only [hrun] at hmem
              have hconclude := sent_conclude executor xid wasImplicitTxn t
              split at hconclude
              · rw [hconclude, List.mem_singleton] at hmem
                obtain ⟨fields, rfl⟩ := herror
                cases hmem
              · rw [hconclude] at hmem
                cases hmem
          | err e t =>
              rw [hrun] at hmem
              cases hmem
          | panic =>
              rw [hrun] at hmem
              cases hmem
      · rintro ⟨xid', wasImplicitTxn', t, hopen', hfails'⟩
        rw [hopen] at hopen'
        cases hopen'
        exact hfails hfails'
  · refine iff_of_false ?_ ?_
    · rw [sent_inTransaction_stop executor w fun opened s' h => hopen ⟨opened, s', h⟩]
      simp
    · rintro ⟨xid, wasImplicitTxn, s', hrun, _⟩
      exact hopen ⟨_, _, hrun⟩

/-- A statement that fails is not rolled back. -/
theorem failed_not_rolled_back {query : Query ε κ} {w : TransactionId → ServerProgram κ Unit}
    (hwork : work query = some w) {s s' : Shared σ} {xid : TransactionId} {wasImplicitTxn : Bool}
    (hopen : run (serverMachine executor) (openTransaction none) s = .ok (xid, wasImplicitTxn) s')
    (hfails : Fails executor query xid s') (xid' : TransactionId) :
    ¬RollsBackOnError (trace (serverMachine executor) (handleQuery query none) s) xid' := by
  intro hrolls
  have hnever : Performs KeepsGoing (handleQuery query none) := by
    rw [handleQuery_of_work hwork]
    exact keepsGoing_inTransaction none (aside_work hwork)
  obtain ⟨message, hmem, hmessage⟩ :=
    (error_sent_iff executor hwork none s).mpr ⟨xid, wasImplicitTxn, s', hopen, hfails⟩
  obtain ⟨tr, htr, hmem⟩ := List.mem_flatMap.mp hmem
  obtain ⟨_, tr', htr', answer, hlabel⟩ := hrolls ⟨tr, htr, message, hmem, hmessage⟩
  have hop := hnever.trace (serverMachine executor) s tr' htr'
  rw [hlabel] at hop
  exact hop _ rfl

/-- An `INSERT`, `UPDATE` or `DELETE` in a transaction of its own is rolled back on
errors exactly if there are none: it does not fail in the state in which its
transaction has begun. -/
theorem rolls_back_iff {query : Query ε κ} (hdml : isDml query = true) (s : Shared σ) :
    RollsBackOnError (trace (serverMachine executor) (handleQuery query none) s)
        (s.txnMgr.begin .readCommitted).1 ↔
      Succeeds executor query none s := by
  obtain ⟨w, hwork⟩ := work_of_isDml hdml
  constructor
  · intro hrolls xid wasImplicitTxn s' hopen hfails
    exact failed_not_rolled_back executor hwork hopen hfails _ hrolls
  · rintro hfails ⟨tr, htr, message, hmem, hmessage⟩
    obtain ⟨xid, wasImplicitTxn, s', hopen, hfail⟩ := (error_sent_iff executor hwork none s).mp
      ⟨message, List.mem_flatMap.mpr ⟨tr, htr, hmem⟩, hmessage⟩
    exact absurd hfail (hfails xid wasImplicitTxn s' hopen)

end Statements

section MissingRelation

/-- `INSERT INTO t VALUES (1)`. -/
def insertOne : Query Empty Unit :=
  .statement (.insert ⟨⟨["t"]⟩, .values [[.literal (.number "1")]]⟩)

theorem open_emptyShared :
    ∃ wal, run (serverMachine noRows) (openTransaction none) emptyShared =
      .ok (⟨1⟩, true)
        { catalog := Catalog.new
          db := { emptyShared.db with wal := wal }
          txnMgr := (TransactionManager.new.begin .readCommitted).2 } := by
  have hsize : (encodeRecord (.begin 1)).length ≤ (8192 : UInt32).toNat := by decide
  obtain ⟨page, page', happend, _, _⟩ :=
    @append_eq _ (WAL.new 8192) (.begin 1) _ (by decide) rfl hsize 0 rfl (by decide)
  refine ⟨logged (WAL.new 8192) 0 (encodeRecord (.begin 1)) page', ?_⟩
  have hlog : emptyShared.db.wal = WAL.new 8192 := rfl
  simp only [openTransaction, QueryHandlers.effect, call, bind_eq, Program.bind, run,
    serverMachine, answered, onDb, onWal, within]
  simp only [hlog]
  rw [show append (.begin (emptyShared.txnMgr.begin .readCommitted).1.val.toUInt64)
    (WAL.new 8192) = _ from happend]
  rfl

/-- An `INSERT` into a relation that is not there sends an error and is not rolled
back. -/
theorem insert_not_rolled_back :
    ¬RollsBackOnError (trace (serverMachine noRows) (handleQuery insertOne none) emptyShared)
      ⟨1⟩ := by
  obtain ⟨wal, hopen⟩ := open_emptyShared
  have hwork : work insertOne = some _ := rfl
  exact failed_not_rolled_back noRows hwork hopen trivial ⟨1⟩

theorem rolls_back_iff_insertOne :
    isDml insertOne = true ∧
      (RollsBackOnError (trace (serverMachine noRows) (handleQuery insertOne none) emptyShared)
          (emptyShared.txnMgr.begin .readCommitted).1 ↔
        Succeeds noRows insertOne none emptyShared) :=
  ⟨rfl, rolls_back_iff noRows rfl emptyShared⟩

end MissingRelation

end PostgressRs.Server.FailedStatements
