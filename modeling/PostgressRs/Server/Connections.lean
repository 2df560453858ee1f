import PostgressRs.Server.Sessions
import PostgressRs.Wal.FlushBookkeeping

/-!
The connections of `src/server.rs`.  Each one handles one query after the other;
the effects of several connections interleave in any order.
-/

namespace PostgressRs.Server.Connections

open PostgressRs.BufferCache.SharedCache
open PostgressRs.Executor.HeapAccess
open PostgressRs.Lib.ByteBuffer
open PostgressRs.Lib.Effects
open PostgressRs.Lib.Effects.Program
open PostgressRs.Lib
open PostgressRs.Lib.Transitions
open PostgressRs.RelationCatalog
open PostgressRs.Protocol.Backend
open PostgressRs.Server.Queries
open PostgressRs.Server.QueryHandlers
open PostgressRs.Server.Sessions
open PostgressRs.Storage.PageStore
open PostgressRs.Txn.TransactionTable
open PostgressRs.Types
open PostgressRs.Wal.FlushBookkeeping
open PostgressRs.Wal.LogRecord
open PostgressRs.Wal.WriteAheadLog

/-- A connection between two queries has its `current_xid`; one that handles a
query has the rest of the handler. -/
inductive Connection (ε κ : Type) where
  | closed
  | idle (currentXid : Option TransactionId)
  | busy (query : Query ε κ) (rest : ServerProgram κ (Option TransactionId))

structure ServerState (ε κ σ : Type) where
  shared : Shared σ
  connections : Nat → Connection ε κ

/-- A server without connections. -/
def ServerState.new {ε κ σ : Type} (shared : Shared σ) : ServerState ε κ σ where
  shared := shared
  connections _ := .closed

def ServerState.setConnection {ε κ σ : Type} (s : ServerState ε κ σ) (c : Nat)
    (connection : Connection ε κ) : ServerState ε κ σ :=
  { s with connections := Function.update s.connections c connection }

/-- `close` is a `Terminate` message, the end of the stream or a read error.  A
handler that panics takes its connection with it. -/
inductive ServerEvent (ε κ : Type) where
  | accept (c : Nat)
  | receive (c : Nat) (query : Query ε κ)
  | perform (c : Nat) (event : Event (serverEffects κ))
  | finish (c : Nat)
  | panic (c : Nat)
  | close (c : Nat)

/-- What a call that panics may leave: it has not touched the transactions, and the
log has at most grown. -/
structure Interrupted {σ : Type} (s s' : Shared σ) : Prop where
  txnMgr_eq : s'.txnMgr = s.txnMgr
  wal : Extends s.db.wal s'.db.wal

section Steps

variable {ε κ σ : Type} [TextFormat ε] [Bincode] [StorageTrait σ]

inductive ServerStep (executor : SelectExecutor κ σ) :
    ServerState ε κ σ → ServerEvent ε κ → ServerState ε κ σ → Prop
  | accept {s : ServerState ε κ σ} {c : Nat} : s.connections c = .closed →
      ServerStep executor s (.accept c) (s.setConnection c (.idle none))
  | receive {s : ServerState ε κ σ} {c : Nat} {query : Query ε κ} {cur : Option TransactionId} :
      s.connections c = .idle cur →
      ServerStep executor s (.receive c query)
        (s.setConnection c (.busy query (handleQuery query cur)))
  | perform {s : ServerState ε κ σ} {c : Nat} {query : Query ε κ} {op : ServerOp κ}
      {next : (serverEffects κ).Answer op → ServerProgram κ (Option TransactionId)}
      {answer : (serverEffects κ).Answer op} {shared : Shared σ} :
      s.connections c = .busy query (.perform op next) →
      serverMachine executor op s.shared = some (answer, shared) →
      ServerStep executor s (.perform c ⟨op, answer⟩)
        ({ s with shared := shared }.setConnection c (.busy query (next answer)))
  | finish {s : ServerState ε κ σ} {c : Nat} {query : Query ε κ} {cur : Option TransactionId} :
      s.connections c = .busy query (.done cur) →
      ServerStep executor s (.finish c) (s.setConnection c (.idle cur))
  | panic {s : ServerState ε κ σ} {c : Nat} {query : Query ε κ} {op : ServerOp κ}
      {next : (serverEffects κ).Answer op → ServerProgram κ (Option TransactionId)}
      {shared : Shared σ} :
      s.connections c = .busy query (.perform op next) →
      serverMachine executor op s.shared = none → Interrupted s.shared shared →
      ServerStep executor s (.panic c) ({ s with shared := shared }.setConnection c .closed)
  | close {s : ServerState ε κ σ} {c : Nat} {cur : Option TransactionId} :
      s.connections c = .idle cur →
      ServerStep executor s (.close c) (s.setConnection c .closed)

end Steps

section Ownership

variable {ε κ σ : Type}

/-- The session that a connection is in, for the order of its effects. -/
def InSession (nested : Bool) (session : Session) : Connection ε κ → Prop
  | .closed => session = .outside
  | .idle cur => session = .between cur
  | .busy query rest => Returns nested (isCommit query) session rest

/-- No connection handles a query. -/
def BetweenStatements (s : ServerState ε κ σ) : Prop :=
  ∀ c query rest, s.connections c ≠ .busy query rest

/-- The active transactions are the current ones of the open connections. -/
def ActiveAreCurrent (s : ServerState ε κ σ) : Prop :=
  ∀ xid, (∃ txn, s.shared.txnMgr.active.lookup xid = some txn) ↔
    ∃ c, s.connections c = .idle (some xid)

/-- Transactions are begun and connections closed only outside of transactions; no
handler panics; and the xid that is to be begun is not active. -/
def KeepsTrack (s : ServerState ε κ σ) : ServerEvent ε κ → Prop
  | .receive c query => isBegin query = true → s.connections c = .idle none
  | .perform _ ⟨.begin _, _⟩ => s.shared.txnMgr.active.lookup ⟨s.shared.txnMgr.nextXid⟩ = none
  | .panic _ => False
  | .close c => s.connections c = .idle none
  | _ => True

/-- Every active transaction belongs to one connection. -/
structure Owned (sessions : Nat → Session) (s : ServerState ε κ σ) : Prop where
  session : ∀ c, InSession false (sessions c) (s.connections c)
  active : ∀ xid, (∃ txn, s.shared.txnMgr.active.lookup xid = some txn) ↔
    ∃ c, (sessions c).xid? = some xid
  unique : ∀ c d xid, (sessions c).xid? = some xid → (sessions d).xid? = some xid → c = d

/-- What one effect can do to a session. -/
theorem sessionOrder_cases {explicit : Bool} {st st' : Session} {op : ServerOp κ}
    {answer : (serverEffects κ).Answer op}
    (h : sessionOrder false explicit st ⟨op, answer⟩ = some st') :
    (∃ isolation xid, (⟨op, answer⟩ : Event (serverEffects κ)) = ⟨.begin isolation, xid⟩ ∧
      st = .outside ∧ st' = .inside xid) ∨
    (∃ xid, (op = .commit xid ∨ op = .rollback xid) ∧ st.xid? = some xid ∧ st' = .outside) ∨
    ((∀ isolation, op ≠ .begin isolation) ∧ (∀ xid, op ≠ .commit xid ∧ op ≠ .rollback xid) ∧
      st'.xid? = st.xid?) := by
  cases st with
  | logged xid =>
      cases op with
      | commit xid' =>
          simp only [sessionOrder] at h
          split at h
          · rename_i heq
            cases h
            exact Or.inr (Or.inl ⟨xid', Or.inl rfl, congrArg some heq.symm, rfl⟩)
          · cases h
      | _ => cases h
  | outside =>
      cases op with
      | begin isolation =>
          cases h
          exact Or.inl ⟨isolation, answer, rfl, rfl, rfl⟩
      | commit xid => cases h
      | rollback xid => cases h
      | _ =>
          cases h
          exact Or.inr (Or.inr ⟨by simp, by simp, rfl⟩)
  | inside xid =>
      cases op with
      | begin isolation => cases h
      | commit xid' =>
          simp only [sessionOrder] at h
          split at h
          · rename_i heq
            cases h
            exact Or.inr (Or.inl ⟨xid', Or.inl rfl, congrArg some heq.symm, rfl⟩)
          · cases h
      | rollback xid' =>
          simp only [sessionOrder] at h
          split at h
          · rename_i heq
            cases h
            exact Or.inr (Or.inl ⟨xid', Or.inr rfl, congrArg some heq.symm, rfl⟩)
          · cases h
      | append record =>
          refine Or.inr (Or.inr ⟨by simp, by simp, ?_⟩)
          cases record with
          | commit value =>
              simp only [sessionOrder] at h
              split at h
              · cases h
              · split at h
                · cases answer with
                  | ok lsn =>
                      cases h
                      rfl
                  | error e =>
                      cases h
                      rfl
                · cases h
          | _ =>
              cases h
              rfl
      | _ =>
          cases h
          exact Or.inr (Or.inr ⟨by simp, by simp, rfl⟩)

end Ownership

section Machine

variable {κ σ : Type} [Bincode] [StorageTrait σ] {s s' : Shared σ}

omit [Bincode] [StorageTrait σ] in
theorem answered_onDb {α : Type} {p : Procedure.Proc (Database σ) α} {answer : Except String α}
    (h : answered (QueryHandlers.onDb p) s = some (answer, s')) :
    ∃ db, s' = { s with db := db } := by
  simp only [answered, QueryHandlers.onDb, Procedure.within] at h
  cases hp : p s.db with
  | ok a db =>
      simp only [hp] at h
      cases h
      exact ⟨db, rfl⟩
  | err e db =>
      simp only [hp] at h
      cases h
      exact ⟨db, rfl⟩
  | panic =>
      simp only [hp] at h
      cases h

omit [Bincode] [StorageTrait σ] in
theorem answered_onSchema {α : Type} {p : Procedure.Proc (Schema σ) α} {answer : Except String α}
    (h : answered (onSchema p) s = some (answer, s')) :
    ∃ schema, s' = s.setSchema schema := by
  simp only [answered, onSchema, Procedure.within] at h
  cases hp : p s.schema with
  | ok a schema =>
      simp only [hp] at h
      cases h
      exact ⟨schema, rfl⟩
  | err e schema =>
      simp only [hp] at h
      cases h
      exact ⟨schema, rfl⟩
  | panic =>
      simp only [hp] at h
      cases h

/-- Only `begin`, `commit` and `rollback` touch the transactions. -/
theorem serverMachine_txnMgr {executor : SelectExecutor κ σ} {op : ServerOp κ}
    {answer : (serverEffects κ).Answer op}
    (h : serverMachine executor op s = some (answer, s'))
    (hbegin : ∀ isolation, op ≠ .begin isolation)
    (hend : ∀ xid, op ≠ .commit xid ∧ op ≠ .rollback xid) : s'.txnMgr = s.txnMgr := by
  cases op with
  | begin isolation => exact absurd rfl (hbegin isolation)
  | commit xid => exact absurd rfl (hend xid).1
  | rollback xid => exact absurd rfl (hend xid).2
  | append record =>
      obtain ⟨db, rfl⟩ := answered_onDb h
      rfl
  | flush =>
      cases h
      rfl
  | getRelationState relOid =>
      obtain ⟨db, rfl⟩ := answered_onDb h
      rfl
  | heapScan relOid =>
      obtain ⟨db, rfl⟩ := answered_onDb h
      rfl
  | slowScan relOid filter =>
      obtain ⟨db, rfl⟩ := answered_onDb h
      rfl
  | tupleInsert relOid values =>
      obtain ⟨db, rfl⟩ := answered_onDb h
      rfl
  | tupleUpdate relOid columnIdx newValue filter =>
      obtain ⟨db, rfl⟩ := answered_onDb h
      rfl
  | tupleDelete relOid filter =>
      obtain ⟨db, rfl⟩ := answered_onDb h
      rfl
  | executeSelect select snapshot =>
      obtain ⟨schema, rfl⟩ := answered_onSchema h
      rfl
  | getSnapshotForStatement xid =>
      cases h
      rfl
  | allocateOid =>
      cases h
      rfl
  | listRelations =>
      cases h
      rfl
  | createRelation rel =>
      cases h
      rfl
  | deleteRelation relOid =>
      cases h
      rfl
  | registerIndex info =>
      cases h
      rfl
  | send messages =>
      cases h
      rfl

end Machine

section Invariant

variable {ε κ σ : Type} {s : ServerState ε κ σ} {sessions : Nat → Session}

/-- A connection moves to another state. -/
theorem inSession_update {nested : Bool} {connections : Nat → Connection ε κ} {c : Nat}
    {session : Session} {connection : Connection ε κ}
    (h : ∀ d, InSession nested (sessions d) (connections d))
    (hc : InSession nested session connection) (d : Nat) :
    InSession nested (Function.update sessions c session d)
      (Function.update connections c connection d) := by
  by_cases hd : d = c
  · rw [hd, Function.update_self, Function.update_self]
    exact hc
  · rw [Function.update_of_ne hd, Function.update_of_ne hd]
    exact h d

theorem xid?_update {c : Nat} {session : Session} (h : session.xid? = (sessions c).xid?) (d : Nat) :
    (Function.update sessions c session d).xid? = (sessions d).xid? := by
  by_cases hd : d = c
  · rw [hd, Function.update_self]
    exact h
  · rw [Function.update_of_ne hd]

/-- A connection moves and no transaction begins or ends. -/
theorem Owned.moved (h : Owned sessions s) {shared : Shared σ} {c : Nat} (session : Session)
    {connection : Connection ε κ} (htxn : shared.txnMgr = s.shared.txnMgr)
    (hc : InSession false session connection) (hxid : session.xid? = (sessions c).xid?) :
    Owned (Function.update sessions c session)
      ({ s with shared := shared }.setConnection c connection) := by
  refine ⟨inSession_update h.session hc, ?_, ?_⟩
  · intro xid
    simp only [xid?_update hxid, ServerState.setConnection, htxn]
    exact h.active xid
  · intro d d' xid hd hd'
    rw [xid?_update hxid] at hd hd'
    exact h.unique d d' xid hd hd'

/-- A connection begins a transaction under an xid that is not active. -/
theorem Owned.begun (h : Owned sessions s) {c : Nat} {isolation : IsolationLevel}
    {connection : Connection ε κ} (hout : sessions c = .outside)
    (hfresh : s.shared.txnMgr.active.lookup ⟨s.shared.txnMgr.nextXid⟩ = none)
    (hc : InSession false (.inside (s.shared.txnMgr.begin isolation).1) connection) :
    Owned (Function.update sessions c (.inside (s.shared.txnMgr.begin isolation).1))
      ({ s with shared := { s.shared with
        txnMgr := (s.shared.txnMgr.begin isolation).2 } }.setConnection
        c connection) := by
  have hxid : (s.shared.txnMgr.begin isolation).1 = ⟨s.shared.txnMgr.nextXid⟩ := rfl
  have hnew : ∀ d, (sessions d).xid? ≠ some ⟨s.shared.txnMgr.nextXid⟩ := by
    intro d hd
    obtain ⟨txn, htxn⟩ := (h.active _).mpr ⟨d, hd⟩
    rw [hfresh] at htxn
    cases htxn
  refine ⟨inSession_update h.session hc, ?_, ?_⟩
  · intro xid
    by_cases heq : xid = ⟨s.shared.txnMgr.nextXid⟩
    · subst heq
      refine iff_of_true ⟨_, AList.lookup_insert _⟩ ⟨c, ?_⟩
      rw [Function.update_self]
      rfl
    · simp only [ServerState.setConnection, TransactionManager.begin, AList.lookup_insert_ne heq]
      rw [h.active xid]
      constructor
      · rintro ⟨d, hd⟩
        refine ⟨d, ?_⟩
        rw [Function.update_of_ne]
        · exact hd
        · rintro rfl
          rw [hout] at hd
          cases hd
      · rintro ⟨d, hd⟩
        by_cases hdc : d = c
        · rw [hdc, Function.update_self] at hd
          exact absurd (Option.some.inj hd).symm heq
        · rw [Function.update_of_ne hdc] at hd
          exact ⟨d, hd⟩
  · intro d d' xid hd hd'
    by_cases hdc : d = c
    · by_cases hdc' : d' = c
      · rw [hdc, hdc']
      · rw [hdc, Function.update_self] at hd
        rw [Function.update_of_ne hdc'] at hd'
        cases hd
        exact absurd hd' (hnew d')
    · rw [Function.update_of_ne hdc] at hd
      by_cases hdc' : d' = c
      · rw [hdc', Function.update_self] at hd'
        cases hd'
        exact absurd hd (hnew d)
      · rw [Function.update_of_ne hdc'] at hd'
        exact h.unique d d' xid hd hd'

/-- A connection ends its transaction. -/
theorem Owned.ended (h : Owned sessions s) {c : Nat} {xid : TransactionId}
    {connection : Connection ε κ} (hown : (sessions c).xid? = some xid)
    (hc : InSession false .outside connection) :
    Owned (Function.update sessions c .outside)
      ({ s with shared := { s.shared with txnMgr := (s.shared.txnMgr.finish xid).2 } }.setConnection
        c connection) := by
  obtain ⟨txn, htxn⟩ := (h.active xid).mpr ⟨c, hown⟩
  have hfinish : (s.shared.txnMgr.finish xid).2.active = s.shared.txnMgr.active.erase xid := by
    simp only [TransactionManager.finish, htxn]
  have hother : ∀ d, d ≠ c → ∀ x, (sessions d).xid? = some x → x ≠ xid := by
    rintro d hd x hx rfl
    exact hd (h.unique d c x hx hown)
  refine ⟨inSession_update h.session hc, ?_, ?_⟩
  · intro x
    simp only [ServerState.setConnection, hfinish]
    by_cases heq : x = xid
    · subst heq
      rw [AList.lookup_erase]
      refine iff_of_false (by simp) ?_
      rintro ⟨d, hd⟩
      by_cases hdc : d = c
      · rw [hdc, Function.update_self] at hd
        cases hd
      · rw [Function.update_of_ne hdc] at hd
        exact hother d hdc x hd rfl
    · rw [AList.lookup_erase_ne heq, h.active x]
      constructor
      · rintro ⟨d, hd⟩
        refine ⟨d, ?_⟩
        rw [Function.update_of_ne]
        · exact hd
        · rintro rfl
          rw [hown] at hd
          exact heq (Option.some.inj hd).symm
      · rintro ⟨d, hd⟩
        by_cases hdc : d = c
        · rw [hdc, Function.update_self] at hd
          cases hd
        · rw [Function.update_of_ne hdc] at hd
          exact ⟨d, hd⟩
  · intro d d' x hd hd'
    by_cases hdc : d = c
    · rw [hdc, Function.update_self] at hd
      cases hd
    · by_cases hdc' : d' = c
      · rw [hdc', Function.update_self] at hd'
        cases hd'
      · rw [Function.update_of_ne hdc] at hd
        rw [Function.update_of_ne hdc'] at hd'
        exact h.unique d d' x hd hd'

variable [TextFormat ε] [Bincode] [StorageTrait σ] {executor : SelectExecutor κ σ}
  {s' : ServerState ε κ σ}

theorem owned_step {event : ServerEvent ε κ} (h : Owned sessions s)
    (hstep : ServerStep executor s event s') (hguard : KeepsTrack s event) :
    ∃ sessions', Owned sessions' s' := by
  cases hstep with
  | @accept c hclosed =>
      have hc := h.session c
      rw [hclosed] at hc
      exact ⟨_, h.moved .outside rfl rfl (congrArg Session.xid? hc.symm)⟩
  | @receive c query cur hidle =>
      have hc := h.session c
      rw [hidle] at hc
      refine ⟨_, h.moved (.between cur) rfl (returns_handleQuery query ?_)
        (congrArg Session.xid? hc.symm)⟩
      intro _ hbegin
      have hnone := hguard hbegin
      rw [hidle] at hnone
      cases hnone
      rfl
  | @perform c query op next answer shared hbusy hmachine =>
      have hc := h.session c
      rw [hbusy] at hc
      obtain ⟨session, horder, hrest⟩ := hc answer
      rcases sessionOrder_cases horder with ⟨isolation, xid, hevent, hout, rfl⟩ |
        ⟨xid, hop, hown, rfl⟩ | ⟨hbegin, hend, hxid⟩
      · cases hevent
        cases hmachine
        exact ⟨_, h.begun hout hguard hrest⟩
      · rcases hop with rfl | rfl
        · cases hmachine
          exact ⟨_, h.ended hown hrest⟩
        · cases hmachine
          exact ⟨_, h.ended hown hrest⟩
      · exact ⟨_, h.moved session (serverMachine_txnMgr hmachine hbegin hend) hrest hxid⟩
  | @finish c query cur hbusy =>
      have hc := h.session c
      rw [hbusy] at hc
      exact ⟨_, h.moved (.between cur) rfl rfl (congrArg Session.xid? hc.symm)⟩
  | panic => exact hguard.elim
  | @close c cur hidle =>
      have hc := h.session c
      have hnone : s.connections c = .idle none := hguard
      rw [hnone] at hc
      exact ⟨_, h.moved .outside rfl rfl (congrArg Session.xid? hc.symm)⟩

omit [TextFormat ε] [Bincode] [StorageTrait σ] in
theorem Owned.activeAreCurrent (h : Owned sessions s) (hbetween : BetweenStatements s) :
    ActiveAreCurrent s := by
  intro xid
  rw [h.active xid]
  have hxid : ∀ c, (sessions c).xid? = some xid ↔ s.connections c = .idle (some xid) := by
    intro c
    have hc := h.session c
    cases hconnection : s.connections c with
    | closed =>
        rw [hconnection] at hc
        rw [show sessions c = .outside from hc]
        simp [Session.xid?]
    | idle cur =>
        rw [hconnection] at hc
        rw [show sessions c = .between cur from hc]
        cases cur with
        | none => simp [Session.between, Session.xid?]
        | some x => simp [Session.between, Session.xid?]
    | busy query rest => exact absurd hconnection (hbetween c query rest)
  exact exists_congr hxid

/-- In every run in which connections begin transactions and go only outside of
transactions, no handler panics and no active xid is begun again, the active
transactions are those of the open connections whenever no statement is running. -/
theorem no_leaked_transactions {shared : Shared σ} (hempty : shared.txnMgr = TransactionManager.new)
    {trace : List (Transition (ServerState ε κ σ) (ServerEvent ε κ))}
    (hrun : Run (ServerStep executor) (ServerState.new shared) trace s)
    (hguard : ∀ tr ∈ trace, KeepsTrack tr.source tr.label) (hbetween : BetweenStatements s) :
    ActiveAreCurrent s := by
  have hinit : ∃ sessions, Owned sessions (ServerState.new shared : ServerState ε κ σ) := by
    refine ⟨fun _ => .outside, fun _ => rfl, ?_, by simp [Session.xid?]⟩
    intro xid
    simp [ServerState.new, hempty, TransactionManager.new, Session.xid?]
  have hinv := Run.invariant (fun s => ∃ sessions, Owned sessions s) KeepsTrack
    (fun _ _ _ hs hg h => owned_step hs.choose_spec h hg) hrun hinit hguard
  obtain ⟨sessions, howned⟩ := hinv.1
  exact howned.activeAreCurrent hbetween

end Invariant

section OneConnection

/-- Case mapping for names in ASCII. -/
instance asciiText : TextFormat Empty where
  toUppercase name := String.ofList (name.toList.map Char.toUpper)
  toLowercase name := String.ofList (name.toList.map Char.toLower)
  debugExpr
    | .identifier name => "Identifier(\"" ++ name ++ "\")"
    | _ => ""

def emptyShared : Shared EphemeralStorage where
  catalog := Catalog.new
  db := ⟨SharedBufferCache.new EphemeralStorage.new, WAL.new 8192⟩
  txnMgr := TransactionManager.new

def noRows : SelectExecutor Unit EphemeralStorage := fun _ _ => pure ⟨[], []⟩

def beginQuery : Query Empty Unit := .statement (.begin ⟨none⟩)

/-- A connection begins a transaction. -/
theorem run_begin :
    ∃ trace s, Run (ServerStep noRows) (ServerState.new emptyShared) trace s ∧
      trace.map Transition.label =
        [.accept 0, .receive 0 beginQuery, .perform 0 ⟨.begin .readCommitted, ⟨1⟩⟩,
          .perform 0 ⟨.send [.commandComplete "BEGIN", .readyForQuery .inTransaction], ()⟩,
          .finish 0] ∧
      s.connections = Function.update (fun _ => .closed) 0 (.idle (some ⟨1⟩)) ∧
      s.shared.txnMgr.active.keys = [⟨1⟩] ∧
      ∀ tr ∈ trace, KeepsTrack tr.source tr.label := by
  refine ⟨_, _, Run.cons (ServerStep.accept rfl) <| Run.cons (ServerStep.receive rfl) <|
    Run.cons (ServerStep.perform rfl rfl) <| Run.cons (ServerStep.perform rfl rfl) <|
    Run.cons (ServerStep.finish rfl) <| Run.nil _, rfl, ?_, rfl, ?_⟩
  · simp only [ServerState.setConnection, ServerState.new, Function.update_idem]
  · intro tr htr
    simp only [List.mem_cons, List.not_mem_nil, or_false] at htr
    rcases htr with rfl | rfl | rfl | rfl | rfl
    · exact trivial
    · exact fun _ => rfl
    · exact rfl
    · exact trivial
    · exact trivial

/-- A client that goes away inside a transaction leaves it active. -/
theorem closed_in_transaction :
    ∃ trace s, Run (ServerStep noRows) (ServerState.new emptyShared) trace s ∧
      trace.map Transition.label =
        [.accept 0, .receive 0 beginQuery, .perform 0 ⟨.begin .readCommitted, ⟨1⟩⟩,
          .perform 0 ⟨.send [.commandComplete "BEGIN", .readyForQuery .inTransaction], ()⟩,
          .finish 0, .close 0] ∧
      BetweenStatements s ∧ ¬ActiveAreCurrent s := by
  obtain ⟨trace, s, hrun, hlabels, hconnections, hactive, _⟩ := run_begin
  have hidle : s.connections 0 = .idle (some ⟨1⟩) := by
    rw [hconnections]
    rfl
  have hclosed : ∀ c, (s.setConnection 0 .closed).connections c = .closed := by
    intro c
    simp only [ServerState.setConnection, hconnections, Function.update_idem]
    by_cases hc : c = 0
    · rw [hc, Function.update_self]
    · rw [Function.update_of_ne hc]
  refine ⟨_, _, hrun.append (Run.cons (ServerStep.close hidle) (Run.nil _)), ?_, ?_, ?_⟩
  · rw [List.map_append, hlabels]
    rfl
  · intro c query rest hbusy
    rw [hclosed c] at hbusy
    cases hbusy
  · intro h
    have hkey : (⟨1⟩ : TransactionId) ∈ s.shared.txnMgr.active := by
      rw [AList.mem_keys, hactive]
      exact List.mem_cons_self
    obtain ⟨c, hc⟩ := (h ⟨1⟩).mp (Option.isSome_iff_exists.mp (AList.lookup_isSome.mpr hkey))
    rw [hclosed c] at hc
    cases hc

theorem no_leaked_transactions_begin :
    ∃ trace, ∃ s : ServerState Empty Unit EphemeralStorage,
      Run (ServerStep noRows) (ServerState.new emptyShared) trace s ∧
      s.connections 0 = .idle (some ⟨1⟩) ∧ ActiveAreCurrent s := by
  obtain ⟨trace, s, hrun, hlabels, hconnections, hactive, hguard⟩ := run_begin
  refine ⟨trace, s, hrun, ?_, ?_⟩
  · rw [hconnections]
    rfl
  · have hbetween : BetweenStatements s := by
      intro c query rest hbusy
      rw [hconnections] at hbusy
      by_cases hc : c = 0
      · rw [hc, Function.update_self] at hbusy
        cases hbusy
      · rw [Function.update_of_ne hc] at hbusy
        cases hbusy
    exact no_leaked_transactions rfl hrun hguard hbetween

end OneConnection

end PostgressRs.Server.Connections
