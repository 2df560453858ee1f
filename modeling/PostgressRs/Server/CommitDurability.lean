import PostgressRs.Executor.HeapPrograms
import PostgressRs.Server.Connections

/-!
Whether the `Commit` record of a transaction is flushed when the transaction leaves
the active set.
-/

namespace PostgressRs.Server.CommitDurability

open PostgressRs.Executor.HeapAccess
open PostgressRs.Executor.HeapPrograms
open PostgressRs.Lib.ByteBuffer
open PostgressRs.Lib.Effects
open PostgressRs.Lib.Effects.Program
open PostgressRs.Lib.Procedure hiding ofExcept orPanic
open PostgressRs.Lib.Transitions
open PostgressRs.Protocol.Backend
open PostgressRs.Server.Connections
open PostgressRs.Server.Queries
open PostgressRs.Server.QueryHandlers
open PostgressRs.Server.Sessions
open PostgressRs.Storage.PageStore
open PostgressRs.Txn.TransactionTable
open PostgressRs.Types
open PostgressRs.Wal.FlushBookkeeping
open PostgressRs.Wal.LogRecord
open PostgressRs.Wal.WriteAheadLog

section Log

variable {κ σ : Type} [Bincode] [StorageTrait σ]

/-- The log has at most grown. -/
def LogExtends (db db' : Database σ) : Prop := Extends db.wal db'.wal

instance reflLogExtends : Std.Refl (@LogExtends σ) where
  refl _ := ⟨Nat.le_refl _, rfl⟩

instance transLogExtends : IsTrans (Database σ) LogExtends where
  trans _ _ _ h h' :=
    ⟨Nat.le_trans h.current_le h'.current_le, h'.flushed_eq.trans h.flushed_eq⟩

omit [Bincode] [StorageTrait σ] in
theorem logExtends_onCache {α : Type} (p : Proc (BufferCache.SharedCache.SharedBufferCache σ) α) :
    Keeps LogExtends (onCache p) := by
  have htrue : Keeps (fun _ _ => True) p := fun _ _ _ => trivial
  exact keeps_within htrue fun db _ _ => refl_of LogExtends db

omit [StorageTrait σ] in
theorem logExtends_append (record : WALRecord) :
    Keeps LogExtends (onWal (append record) : Proc (Database σ) Nat) := by
  have hextends : Keeps Extends (append record) := by
    intro wal wal' hstate
    cases happend : append record wal with
    | ok lsn t =>
        rw [happend] at hstate
        cases hstate
        obtain ⟨data, _, hle, hcurrent, hflushed⟩ := append_extends happend
        refine ⟨?_, hflushed⟩
        rw [hcurrent]
        exact Nat.le_trans hle (Nat.le_add_right _ _)
    | err e t =>
        rw [happend] at hstate
        cases hstate
        rw [append_err happend]
        exact ⟨Nat.le_refl _, rfl⟩
    | panic =>
        rw [happend] at hstate
        cases hstate
  exact keeps_within hextends fun _ _ h => h

theorem logExtends_heapMachine (op : HeapOp) (db : Database σ) (answer : heapEffects.Answer op)
    (db' : Database σ) (h : heapMachine op db = some (answer, db')) : LogExtends db db' := by
  cases op with
  | getRelation relOid => exact keeps_answered (logExtends_onCache _) h
  | readPage pageId => exact keeps_answered (logExtends_onCache _) h
  | writePage pageId data => exact keeps_answered (logExtends_onCache _) h
  | setRelation relOid rel =>
      cases h
      exact ⟨Nat.le_refl _, rfl⟩
  | allocateXid =>
      cases h
      exact ⟨Nat.le_refl _, rfl⟩
  | append record => exact keeps_answered (logExtends_append record) h

theorem logExtends_heapProgram {α : Type} (p : HeapProgram α) :
    Keeps LogExtends (run heapMachine p : Proc (Database σ) α) :=
  keeps_run logExtends_heapMachine p

theorem logExtends_scanPages (desc : TupleDesc) (snapshot : Snapshot) (filter : Option Filter)
    (pageIds : List PageId) :
    Keeps LogExtends (scanPages desc snapshot filter pageIds : Proc (Database σ) (List Row)) := by
  induction pageIds with
  | nil => exact keeps_pure []
  | cons pageId pageIds ih =>
      refine keeps_bind ?_ fun page => ?_
      · exact keeps_bind (logExtends_onCache _) fun _ => keeps_orPanic _
      · exact keeps_bind ih fun _ => keeps_pure _

omit [StorageTrait σ] in
theorem logExtends_scanFetched (desc : TupleDesc) (snapshot : Snapshot)
    (pages : List (PageId × Bytes)) :
    Keeps LogExtends (scanFetched desc snapshot pages : Proc (Database σ) (List Row)) := by
  induction pages with
  | nil => exact keeps_pure []
  | cons entry pages ih =>
      exact keeps_bind (keeps_orPanic _) fun _ => keeps_bind ih fun _ => keeps_pure _

/-- Every effect but a flush at most extends the log. -/
theorem serverMachine_extends {executor : SelectExecutor κ σ} {op : ServerOp κ} {s s' : Shared σ}
    {answer : (serverEffects κ).Answer op} (h : serverMachine executor op s = some (answer, s'))
    (hflush : op ≠ .flush) : Extends s.db.wal s'.db.wal := by
  have hkeep : ∀ {α : Type} {p : Proc (Database σ) α} {result : Except String α},
      Keeps LogExtends p → answered (QueryHandlers.onDb p) s = some (result, s') →
      Extends s.db.wal s'.db.wal := by
    intro α p result hp hanswer
    have hdb : Keeps (fun s s' : Shared σ => LogExtends s.db s'.db) (QueryHandlers.onDb p) :=
      keeps_within hp fun _ _ hdb => hdb
    exact keeps_answered hdb hanswer
  cases op with
  | flush => exact absurd rfl hflush
  | append record => exact hkeep (logExtends_append record) h
  | getRelationState relOid => exact hkeep (logExtends_onCache _) h
  | heapScan relOid =>
      refine hkeep (keeps_bind (logExtends_onCache _) fun rel => ?_) h
      exact keeps_bind (logExtends_onCache _) fun pages => logExtends_scanFetched _ _ pages
  | slowScan relOid filter =>
      exact hkeep (keeps_bind (logExtends_onCache _) fun _ => logExtends_scanPages _ _ _ _) h
  | tupleInsert relOid values =>
      refine hkeep ?_ h
      rw [← run_insert]
      exact logExtends_heapProgram _
  | tupleUpdate relOid columnIdx newValue filter =>
      refine hkeep ?_ h
      rw [← run_update]
      exact logExtends_heapProgram _
  | tupleDelete relOid filter =>
      refine hkeep ?_ h
      rw [← run_delete]
      exact logExtends_heapProgram _
  | executeSelect select snapshot =>
      obtain ⟨schema, rfl⟩ := answered_onSchema h
      exact ⟨Nat.le_refl _, rfl⟩
  | _ =>
      cases h
      exact ⟨Nat.le_refl _, rfl⟩

end Log

section History

variable {ε κ σ : Type}

abbrev Past (ε κ σ : Type) := List (Transition (ServerState ε κ σ) (ServerEvent ε κ))

/-- The connection has appended the `Commit` record of the transaction it is in, at
`lsn`; `mid` is what has happened since. -/
def CommitLogged (past : Past ε κ σ) (c : Nat) (xid : TransactionId) (lsn : Nat)
    (mid : Past ε κ σ) : Prop :=
  ∃ pre app, past = pre ++ app :: mid ∧
    app.label = .perform c ⟨.append (.commit xid.val.toUInt64), .ok lsn⟩ ∧
    ∀ tr ∈ mid, ∀ isolation x, tr.label ≠ .perform c ⟨.begin isolation, x⟩

/-- The `Commit` record of the transaction is in the flushed part of the log. -/
def Durable [Bincode] (past : Past ε κ σ) (s : ServerState ε κ σ) (c : Nat) (xid : TransactionId) :
    Prop :=
  ∃ lsn mid data, CommitLogged past c xid lsn mid ∧
    serializeRecord (.commit xid.val.toUInt64) = .ok data ∧
    lsn + data.length ≤ s.shared.db.wal.flushedLsn

/-- Another connection has flushed the log. -/
def FlushedByOther (mid : Past ε κ σ) (c : Nat) : Prop :=
  ∃ tr ∈ mid, ∃ d answer, d ≠ c ∧ tr.label = .perform d ⟨.flush, answer⟩

def Unlogged (past : Past ε κ σ) (c : Nat) : Prop :=
  ∀ xid lsn mid, ¬CommitLogged past c xid lsn mid

/-- The last effect of the connection was to append its `Commit` record. -/
structure JustLogged [Bincode] (past : Past ε κ σ) (wal : WAL) (c : Nat) (xid : TransactionId)
    (pre : Past ε κ σ) (app : Transition (ServerState ε κ σ) (ServerEvent ε κ))
    (mid : Past ε κ σ) (lsn : Nat) (data : Bytes) : Prop where
  split : past = pre ++ app :: mid
  label : app.label = .perform c ⟨.append (.commit xid.val.toUInt64), .ok lsn⟩
  silent : ∀ tr ∈ mid, ∀ event, tr.label ≠ .perform c event
  unlogged : Unlogged pre c
  encoded : serializeRecord (.commit xid.val.toUInt64) = .ok data
  whole : Whole wal lsn data
  flushed : lsn + data.length ≤ wal.flushedLsn ↔ FlushedByOther mid c

/-- What the past says about a connection in a session. -/
def Recorded [Bincode] (past : Past ε κ σ) (wal : WAL) (c : Nat) : Session → Prop
  | .outside => True
  | .inside _ => Unlogged past c
  | .logged xid => ∃ pre app mid lsn data, JustLogged past wal c xid pre app mid lsn data

/-- A handler of `COMMIT` does not append the record before it commits. -/
def NotYetLogged : Session → Connection ε κ → Prop
  | .logged _, .busy query _ => isCommit query = false
  | _, _ => True

structure History [Bincode] (past : Past ε κ σ) (sessions : Nat → Session)
    (s : ServerState ε κ σ) : Prop where
  session : ∀ c, InSession true (sessions c) (s.connections c)
  implicit : ∀ c, NotYetLogged (sessions c) (s.connections c)
  recorded : ∀ c, Recorded past s.shared.db.wal c (sessions c)
  flushed_le : s.shared.db.wal.flushedLsn ≤ s.shared.db.wal.currentLsn

theorem commitLogged_snoc {past : Past ε κ σ}
    {tr : Transition (ServerState ε κ σ) (ServerEvent ε κ)}
    {c : Nat} {xid : TransactionId} {lsn : Nat} {mid : Past ε κ σ}
    (h : CommitLogged (past ++ [tr]) c xid lsn mid) :
    tr.label = .perform c ⟨.append (.commit xid.val.toUInt64), .ok lsn⟩ ∨
      ∃ mid', CommitLogged past c xid lsn mid' ∧
        ∀ isolation x, tr.label ≠ .perform c ⟨.begin isolation, x⟩ := by
  obtain ⟨pre, app, hsplit, hlabel, hbegin⟩ := h
  rcases List.eq_nil_or_concat' mid with rfl | ⟨mid', last, rfl⟩
  · obtain ⟨_, hlast⟩ := List.append_inj' hsplit rfl
    cases hlast
    exact Or.inl hlabel
  · rw [← List.cons_append, ← List.append_assoc] at hsplit
    obtain ⟨hpast, hlast⟩ := List.append_inj' hsplit rfl
    cases hlast
    refine Or.inr ⟨mid', ⟨pre, app, hpast, hlabel, ?_⟩, ?_⟩
    · intro tr htr
      exact hbegin tr (List.mem_append_left _ htr)
    · exact hbegin _ (List.mem_append_right _ List.mem_cons_self)

/-- A transition that is not an append of the connection. -/
theorem Unlogged.snoc {past : Past ε κ σ} {c : Nat} (h : Unlogged past c)
    {tr : Transition (ServerState ε κ σ) (ServerEvent ε κ)}
    (htr : ∀ xid lsn,
      tr.label ≠ .perform c ⟨.append (.commit (xid : TransactionId).val.toUInt64), .ok lsn⟩) :
    Unlogged (past ++ [tr]) c := by
  intro xid lsn mid hlogged
  rcases commitLogged_snoc hlogged with hlabel | ⟨mid', hlogged', _⟩
  · exact htr xid lsn hlabel
  · exact h xid lsn mid' hlogged'

/-- The connection has just begun a transaction. -/
theorem unlogged_begun {past : Past ε κ σ} {c : Nat} {isolation : IsolationLevel}
    {x : TransactionId} {tr : Transition (ServerState ε κ σ) (ServerEvent ε κ)}
    (htr : tr.label = .perform c ⟨.begin isolation, x⟩) : Unlogged (past ++ [tr]) c := by
  intro xid lsn mid hlogged
  rcases commitLogged_snoc hlogged with hlabel | ⟨mid', _, hbegin⟩
  · rw [htr] at hlabel
    cases hlabel
  · exact hbegin isolation x htr

/-- Of all the records of the past, the one that was just logged is that of the
current transaction. -/
theorem JustLogged.unique [Bincode] {past pre mid mid' : Past ε κ σ} {wal : WAL} {c : Nat}
    {xid : TransactionId} {app : Transition (ServerState ε κ σ) (ServerEvent ε κ)}
    {lsn lsn' : Nat} {data : Bytes} (h : JustLogged past wal c xid pre app mid lsn data)
    (hlogged : CommitLogged past c xid lsn' mid') : lsn' = lsn ∧ mid' = mid := by
  obtain ⟨pre', app', hsplit, hlabel, hbegin⟩ := hlogged
  rw [h.split] at hsplit
  rcases List.append_eq_append_iff.mp hsplit with ⟨between, hpre, hrest⟩ | ⟨between, hpre, hrest⟩
  · cases between with
    | nil =>
        cases hrest
        have hsame := h.label.symm.trans hlabel
        cases hsame
        exact ⟨rfl, rfl⟩
    | cons first between =>
        rw [List.cons_append] at hrest
        cases hrest
        exact absurd hlabel (h.silent app' (List.mem_append_right _ List.mem_cons_self) _)
  · cases between with
    | nil =>
        cases hrest
        have hsame := h.label.symm.trans hlabel
        cases hsame
        exact ⟨rfl, rfl⟩
    | cons first between =>
        rw [List.cons_append] at hrest
        cases hrest
        refine absurd ⟨pre', _, hpre, hlabel, ?_⟩ (h.unlogged xid lsn' between)
        intro tr htr
        exact hbegin tr (List.mem_append_left _ htr)

/-- What an event does to the log: a flush moves the flushed part to its end, and
anything else at most extends it. -/
def LogMoves (event : ServerEvent ε κ) (wal wal' : WAL) : Prop :=
  (Extends wal wal' ∧ ∀ d answer, event ≠ .perform d ⟨.flush, answer⟩) ∨
    ∃ d answer, event = .perform d ⟨.flush, answer⟩ ∧ flush wal = .ok () wal'

theorem LogMoves.flushed_le {event : ServerEvent ε κ} {wal wal' : WAL} (h : LogMoves event wal wal')
    (hle : wal.flushedLsn ≤ wal.currentLsn) : wal'.flushedLsn ≤ wal'.currentLsn := by
  rcases h with ⟨hextends, _⟩ | ⟨_, _, _, hflush⟩
  · rw [hextends.flushed_eq]
    exact Nat.le_trans hle hextends.current_le
  · cases hflush
    exact Nat.le_refl _

/-- An event in which the connection has no effect. -/
theorem Recorded.other [Bincode] {past : Past ε κ σ} {wal wal' : WAL} {c : Nat} {session : Session}
    (h : Recorded past wal c session) {tr : Transition (ServerState ε κ σ) (ServerEvent ε κ)}
    (htr : ∀ event, tr.label ≠ .perform c event) (hlog : LogMoves tr.label wal wal') :
    Recorded (past ++ [tr]) wal' c session := by
  cases session with
  | outside => trivial
  | inside xid => exact Unlogged.snoc h fun _ _ => htr _
  | logged xid =>
      obtain ⟨pre, app, mid, lsn, data, hjust⟩ := h
      have hsilent : ∀ tr' ∈ mid ++ [tr], ∀ event, tr'.label ≠ .perform c event := by
        intro tr' htr'
        rcases List.mem_append.mp htr' with htr' | htr'
        · exact hjust.silent tr' htr'
        · rw [List.mem_singleton.mp htr']
          exact htr
      have hsplit : past ++ [tr] = pre ++ app :: (mid ++ [tr]) := by
        rw [hjust.split, List.append_assoc, List.cons_append]
      have hwal : Whole wal' lsn data ∧
          (lsn + data.length ≤ wal'.flushedLsn ↔ FlushedByOther (mid ++ [tr]) c) := by
        rcases hlog with ⟨hextends, hnoflush⟩ | ⟨d, answer, hlabel, hflush⟩
        · refine ⟨hjust.whole.extend hextends, ?_⟩
          rw [hextends.flushed_eq, hjust.flushed]
          constructor
          · rintro ⟨tr', htr', hother⟩
            exact ⟨tr', List.mem_append_left _ htr', hother⟩
          · rintro ⟨tr', htr', d, answer, hd, hlabel⟩
            rcases List.mem_append.mp htr' with htr' | htr'
            · exact ⟨tr', htr', d, answer, hd, hlabel⟩
            · rw [List.mem_singleton.mp htr'] at hlabel
              exact absurd hlabel (hnoflush d answer)
        · refine ⟨hjust.whole.flush hflush, ?_⟩
          have hd : d ≠ c := by
            rintro rfl
            exact htr _ hlabel
          have hcovered : lsn + data.length ≤ wal'.flushedLsn := by
            cases hflush
            exact hjust.whole.end_le
          exact iff_of_true hcovered
            ⟨tr, List.mem_append_right _ List.mem_cons_self, d, answer, hd, hlabel⟩
      exact ⟨pre, app, mid ++ [tr], lsn, data, hsplit, hjust.label, hsilent, hjust.unlogged,
        hjust.encoded, hwal.1, hwal.2⟩

/-- What one effect can do to a session, for the log. -/
theorem sessionOrder_log {explicit : Bool} {st st' : Session} {op : ServerOp κ}
    {answer : (serverEffects κ).Answer op}
    (h : sessionOrder true explicit st ⟨op, answer⟩ = some st') :
    st' = .outside ∨
    (∃ isolation xid, (⟨op, answer⟩ : Event (serverEffects κ)) = ⟨.begin isolation, xid⟩ ∧
      st' = .inside xid) ∨
    (∃ xid lsn, explicit = false ∧ st = .inside xid ∧ st' = .logged xid ∧
      (⟨op, answer⟩ : Event (serverEffects κ)) =
        ⟨.append (.commit xid.val.toUInt64), .ok lsn⟩) ∨
    ∃ xid, st = .inside xid ∧ st' = .inside xid ∧ ∀ value lsn,
      (⟨op, answer⟩ : Event (serverEffects κ)) ≠ ⟨.append (.commit value), .ok lsn⟩ := by
  cases st with
  | logged xid =>
      cases op with
      | commit xid' =>
          simp only [sessionOrder] at h
          split at h
          · cases h
            exact Or.inl rfl
          · cases h
      | _ => cases h
  | outside =>
      cases op with
      | begin isolation =>
          cases h
          exact Or.inr (Or.inl ⟨isolation, answer, rfl, rfl⟩)
      | commit xid => cases h
      | rollback xid => cases h
      | _ =>
          cases h
          exact Or.inl rfl
  | inside xid =>
      cases op with
      | begin isolation =>
          cases h
          exact Or.inr (Or.inl ⟨isolation, answer, rfl, rfl⟩)
      | commit xid' =>
          simp only [sessionOrder] at h
          split at h
          · cases h
            exact Or.inl rfl
          · cases h
      | rollback xid' =>
          simp only [sessionOrder] at h
          split at h
          · cases h
            exact Or.inl rfl
          · cases h
      | append record =>
          cases record with
          | commit value =>
              simp only [sessionOrder] at h
              split at h
              · cases h
              · rename_i hexplicit
                split at h
                · rename_i hvalue
                  cases answer with
                  | ok lsn =>
                      cases h
                      rw [hvalue]
                      exact Or.inr (Or.inr (Or.inl
                        ⟨xid, lsn, Bool.eq_false_iff.mpr hexplicit, rfl, rfl, rfl⟩))
                  | error e =>
                      cases h
                      exact Or.inr (Or.inr (Or.inr ⟨xid, rfl, rfl, by simp⟩))
                · cases h
          | _ =>
              cases h
              exact Or.inr (Or.inr (Or.inr ⟨xid, rfl, rfl, by simp⟩))
      | _ =>
          cases h
          exact Or.inr (Or.inr (Or.inr ⟨xid, rfl, rfl, by simp⟩))

/-- Who may commit. -/
theorem sessionOrder_commit {nested explicit : Bool} {st st' : Session} {xid : TransactionId}
    {answer : Except String Unit}
    (h : sessionOrder nested explicit st (⟨.commit xid, answer⟩ : Event (serverEffects κ)) =
      some st') :
    st = .inside xid ∨ st = .logged xid := by
  cases st with
  | outside => cases h
  | inside xid' =>
      simp only [sessionOrder] at h
      split at h
      · rename_i heq
        rw [heq]
        exact Or.inl rfl
      · cases h
  | logged xid' =>
      simp only [sessionOrder] at h
      split at h
      · rename_i heq
        rw [heq]
        exact Or.inr rfl
      · cases h

end History

section Runs

variable {ε κ σ : Type} [TextFormat ε] [Bincode] [StorageTrait σ] {executor : SelectExecutor κ σ}
  {s s' : ServerState ε κ σ}

theorem serverStep_log {event : ServerEvent ε κ} (h : ServerStep executor s event s') :
    LogMoves event s.shared.db.wal s'.shared.db.wal := by
  have hsame : Extends s.shared.db.wal s.shared.db.wal := ⟨Nat.le_refl _, rfl⟩
  cases h with
  | accept _ => exact Or.inl ⟨hsame, by simp⟩
  | receive _ => exact Or.inl ⟨hsame, by simp⟩
  | finish _ => exact Or.inl ⟨hsame, by simp⟩
  | close _ => exact Or.inl ⟨hsame, by simp⟩
  | panic _ _ hinterrupted => exact Or.inl ⟨hinterrupted.wal, by simp⟩
  | @perform c query op next answer shared hbusy hmachine =>
      by_cases hop : op = .flush
      · subst hop
        cases hmachine
        exact Or.inr ⟨c, _, rfl, rfl⟩
      · refine Or.inl ⟨serverMachine_extends hmachine hop, ?_⟩
        intro d answer' heq
        cases heq
        exact hop rfl

omit [TextFormat ε] [StorageTrait σ] in
/-- A connection moves without an effect. -/
theorem History.moved {past : Past ε κ σ} {sessions : Nat → Session} (h : History past sessions s)
    {tr : Transition (ServerState ε κ σ) (ServerEvent ε κ)} {c : Nat} {session : Session}
    {connection : Connection ε κ} {shared : Shared σ}
    (hlog : LogMoves tr.label s.shared.db.wal shared.db.wal)
    (htr : ∀ d event, tr.label ≠ .perform d event)
    (hc : InSession true session connection) (himplicit : NotYetLogged session connection)
    (hsession : session = .outside ∨ session = sessions c) :
    History (past ++ [tr]) (Function.update sessions c session)
      ({ s with shared := shared }.setConnection c connection) := by
  refine ⟨inSession_update h.session hc, ?_, ?_, hlog.flushed_le h.flushed_le⟩
  · intro d
    by_cases hd : d = c
    · subst hd
      simp only [ServerState.setConnection, Function.update_self]
      exact himplicit
    · simp only [ServerState.setConnection, Function.update_of_ne hd]
      exact h.implicit d
  · intro d
    have hother := (h.recorded d).other (htr d) hlog
    by_cases hd : d = c
    · subst hd
      rw [Function.update_self]
      rcases hsession with rfl | rfl
      · trivial
      · exact hother
    · rw [Function.update_of_ne hd]
      exact hother

omit [TextFormat ε] [Bincode] [StorageTrait σ] in
theorem notYetLogged_between (cur : Option TransactionId) (connection : Connection ε κ) :
    NotYetLogged (.between cur) connection := by
  cases cur with
  | none => trivial
  | some xid => trivial

variable [BincodeRecords] [LawfulBincodeRecords]

omit [TextFormat ε] in
/-- The record that a connection appends before it commits. -/
theorem justLogged_append {past : Past ε κ σ} {c : Nat} {xid : TransactionId} {lsn : Nat}
    {shared shared' : Shared σ} {tr : Transition (ServerState ε κ σ) (ServerEvent ε κ)}
    (hunlogged : Unlogged past c)
    (hle : shared.db.wal.flushedLsn ≤ shared.db.wal.currentLsn)
    (htr : tr.label = .perform c ⟨.append (.commit xid.val.toUInt64), .ok lsn⟩)
    (hmachine : serverMachine executor (.append (.commit xid.val.toUInt64)) shared =
      some (.ok lsn, shared')) :
    Recorded (past ++ [tr]) shared'.db.wal c (.logged xid) := by
  obtain ⟨db, hdb, rfl⟩ := within_eq_ok.mp (answered_ok hmachine)
  obtain ⟨wal, happend, rfl⟩ := within_eq_ok.mp hdb
  obtain ⟨data, hdata, hwhole⟩ := whole_appended hle (.appended happend)
  obtain ⟨_, _, hstart, _, hflushed⟩ := append_extends happend
  refine ⟨past, tr, [], lsn, data, rfl, htr, by simp, hunlogged, hdata, hwhole, ?_⟩
  have huncovered : ¬lsn + data.length ≤ wal.flushedLsn := by
    have hnonempty := hwhole.nonempty
    omega
  exact iff_of_false huncovered (by simp [FlushedByOther])

theorem history_step {past : Past ε κ σ} {event : ServerEvent ε κ}
    (h : ∃ sessions, History past sessions s) (hstep : ServerStep executor s event s') :
    ∃ sessions, History (past ++ [⟨s, event, s'⟩]) sessions s' := by
  obtain ⟨sessions, h⟩ := h
  have hlog := serverStep_log hstep
  cases hstep with
  | @accept c hclosed =>
      exact ⟨_, h.moved hlog (by simp) rfl trivial (Or.inl rfl)⟩
  | @receive c query cur hidle =>
      have hc := h.session c
      rw [hidle] at hc
      exact ⟨_, h.moved hlog (by simp) (returns_handleQuery query (by simp))
        (notYetLogged_between cur _) (Or.inr hc.symm)⟩
  | @finish c query cur hbusy =>
      have hc := h.session c
      rw [hbusy] at hc
      exact ⟨_, h.moved hlog (by simp) rfl (notYetLogged_between cur _) (Or.inr hc.symm)⟩
  | @panic c query op next shared hbusy hmachine hinterrupted =>
      exact ⟨_, h.moved hlog (by simp) rfl trivial (Or.inl rfl)⟩
  | @close c cur hidle =>
      exact ⟨_, h.moved hlog (by simp) rfl trivial (Or.inl rfl)⟩
  | @perform c query op next answer shared hbusy hmachine =>
      have hc := h.session c
      rw [hbusy] at hc
      obtain ⟨session, horder, hrest⟩ := hc answer
      have hrecorded := h.recorded c
      have hnew : ∀ t, NotYetLogged session (.busy query (next answer) : Connection ε κ) ∧
          Recorded (past ++ [⟨s, .perform c ⟨op, answer⟩, t⟩]) shared.db.wal c session := by
        intro t
        rcases sessionOrder_log horder with rfl | ⟨isolation, xid, hevent, rfl⟩ |
          ⟨xid, lsn, hexplicit, hinside, rfl, hevent⟩ | ⟨xid, hinside, rfl, hevent⟩
        · exact ⟨trivial, trivial⟩
        · refine ⟨trivial, ?_⟩
          cases hevent
          exact unlogged_begun rfl
        · rw [hinside] at hrecorded
          cases hevent
          exact ⟨hexplicit, justLogged_append hrecorded h.flushed_le rfl hmachine⟩
        · rw [hinside] at hrecorded
          refine ⟨trivial, Unlogged.snoc hrecorded ?_⟩
          intro xid' lsn heq
          cases heq
          exact hevent _ _ rfl
      refine ⟨Function.update sessions c session, inSession_update h.session hrest, ?_, ?_,
        hlog.flushed_le h.flushed_le⟩
      · intro d
        by_cases hd : d = c
        · subst hd
          simp only [ServerState.setConnection, Function.update_self]
          exact (hnew s).1
        · simp only [ServerState.setConnection, Function.update_of_ne hd]
          exact h.implicit d
      · intro d
        by_cases hd : d = c
        · subst hd
          rw [Function.update_self]
          exact (hnew _).2
        · rw [Function.update_of_ne hd]
          refine (h.recorded d).other ?_ hlog
          intro event heq
          cases heq
          exact hd rfl

/-- In every run, the `Commit` record of a transaction is flushed when the
transaction is committed exactly if the transaction is the own one of a statement
and another connection has flushed the log since the record was appended. -/
theorem commit_durable_iff {shared : Shared σ}
    (hle : shared.db.wal.flushedLsn ≤ shared.db.wal.currentLsn) {trace : Past ε κ σ}
    (hrun : Run (ServerStep executor) (ServerState.new shared) trace s) {before after : Past ε κ σ}
    {tr : Transition (ServerState ε κ σ) (ServerEvent ε κ)} (htrace : trace = before ++ tr :: after)
    {c : Nat} {xid : TransactionId} (hcommit : tr.label = .perform c ⟨.commit xid, .ok ()⟩)
    {query : Query ε κ} {rest : ServerProgram κ (Option TransactionId)}
    (hbusy : tr.source.connections c = .busy query rest) :
    Durable before tr.source c xid ↔
      isCommit query = false ∧
        ∃ lsn mid, CommitLogged before c xid lsn mid ∧ FlushedByOther mid c := by
  rw [htrace] at hrun
  obtain ⟨hbefore, hstep, _⟩ := Run.append_cons_inv hrun
  have hinit : ∃ sessions, History [] sessions (ServerState.new shared : ServerState ε κ σ) :=
    ⟨fun _ => .outside, fun _ => rfl, fun _ => trivial, fun _ => trivial, hle⟩
  have hhistory := Run.invariant_history
    (fun (past : Past ε κ σ) s => ∃ sessions, History past sessions s) (fun _ _ => True)
    (fun past s l s' hs _ h => history_step hs h) hbefore [] hinit (fun _ _ => trivial)
  obtain ⟨sessions, h⟩ := hhistory
  have hsession : sessions c = .inside xid ∨ sessions c = .logged xid := by
    rw [hcommit] at hstep
    generalize htarget : tr.target = t at hstep
    cases hstep with
    | @perform _ _ _ next _ _ hbusy' _ =>
        have hc := h.session c
        rw [hbusy'] at hc
        obtain ⟨session, horder, _⟩ := hc (.ok ())
        exact sessionOrder_commit horder
  have hrecorded := h.recorded c
  have himplicit := h.implicit c
  rcases hsession with hsession | hsession
  · rw [hsession] at hrecorded
    refine iff_of_false ?_ ?_
    · rintro ⟨lsn, mid, data, hlogged, _⟩
      exact hrecorded xid lsn mid hlogged
    · rintro ⟨_, lsn, mid, hlogged, _⟩
      exact hrecorded xid lsn mid hlogged
  · rw [hsession] at hrecorded himplicit
    rw [hbusy] at himplicit
    obtain ⟨pre, app, mid, lsn, data, hjust⟩ := hrecorded
    have hlogged : CommitLogged before c xid lsn mid :=
      ⟨pre, app, hjust.split, hjust.label, fun tr htr _ _ => hjust.silent tr htr _⟩
    constructor
    · rintro ⟨lsn', mid', data', hlogged', hdata, hcovered⟩
      obtain ⟨rfl, rfl⟩ := hjust.unique hlogged'
      rw [hjust.encoded] at hdata
      cases hdata
      exact ⟨himplicit, lsn', mid', hlogged, hjust.flushed.mp hcovered⟩
    · rintro ⟨_, lsn', mid', hlogged', hflushed⟩
      obtain ⟨rfl, rfl⟩ := hjust.unique hlogged'
      exact ⟨lsn', mid', data, hlogged, hjust.encoded, hjust.flushed.mpr hflushed⟩

end Runs

section OneConnection

def commitQuery : Query Empty Unit := .statement .commit

/-- A connection begins a transaction and commits it. -/
theorem run_commit :
    ∃ before tr s, Run (ServerStep noRows) (ServerState.new emptyShared) (before ++ [tr]) s ∧
      before.map Transition.label =
        [.accept 0, .receive 0 beginQuery, .perform 0 ⟨.begin .readCommitted, ⟨1⟩⟩,
          .perform 0 ⟨.send [.commandComplete "BEGIN", .readyForQuery .inTransaction], ()⟩,
          .finish 0, .receive 0 commitQuery] ∧
      tr.label = .perform 0 ⟨.commit ⟨1⟩, .ok ()⟩ ∧
      ∃ rest, tr.source.connections 0 = .busy commitQuery rest := by
  have hrun : ∃ before s, Run (ServerStep noRows) (ServerState.new emptyShared) before s ∧
      before.map Transition.label =
        [.accept 0, .receive 0 beginQuery, .perform 0 ⟨.begin .readCommitted, ⟨1⟩⟩,
          .perform 0 ⟨.send [.commandComplete "BEGIN", .readyForQuery .inTransaction], ()⟩,
          .finish 0, .receive 0 commitQuery] ∧
      s.connections 0 = .busy commitQuery (handleQuery commitQuery (some ⟨1⟩)) ∧
      (s.shared.txnMgr.commit ⟨1⟩).1 = .ok () := by
    exact ⟨_, _, Run.cons (ServerStep.accept rfl) <| Run.cons (ServerStep.receive rfl) <|
      Run.cons (ServerStep.perform rfl rfl) <| Run.cons (ServerStep.perform rfl rfl) <|
      Run.cons (ServerStep.finish rfl) <| Run.cons (ServerStep.receive rfl) <| Run.nil _,
      rfl, rfl, rfl⟩
  obtain ⟨before, s, hrun, hlabels, hbusy, hok⟩ := hrun
  have hmachine : serverMachine noRows (.commit ⟨1⟩) s.shared =
      some (.ok (), { s.shared with txnMgr := (s.shared.txnMgr.commit ⟨1⟩).2 }) := by
    simp only [serverMachine, hok]
  exact ⟨before, _, _, hrun.append (Run.cons (ServerStep.perform hbusy hmachine) (Run.nil _)),
    hlabels, rfl, _, hbusy⟩

/-- An explicit `COMMIT` takes the transaction out of the active set with no
`Commit` record in the log. -/
theorem commit_not_durable :
    ∃ (before : Past Empty Unit EphemeralStorage) (tr : _) (s : _),
      Run (ServerStep noRows) (ServerState.new emptyShared) (before ++ [tr]) s ∧
      tr.label = .perform 0 ⟨.commit ⟨1⟩, .ok ()⟩ ∧ ¬Durable before tr.source 0 ⟨1⟩ := by
  obtain ⟨before, tr, s, hrun, hlabels, hcommit, _⟩ := run_commit
  refine ⟨before, tr, s, hrun, hcommit, ?_⟩
  rintro ⟨lsn, mid, data, ⟨pre, app, hsplit, happend, _⟩, _⟩
  have hmem : app.label ∈ before.map Transition.label := by
    rw [hsplit]
    exact List.mem_map_of_mem (List.mem_append_right _ List.mem_cons_self)
  rw [hlabels, happend] at hmem
  simp at hmem

theorem commit_durable_iff_explicit :
    ∃ (before : Past Empty Unit EphemeralStorage) (tr : _) (s : _),
      Run (ServerStep noRows) (ServerState.new emptyShared) (before ++ [tr]) s ∧
      tr.label = .perform 0 ⟨.commit ⟨1⟩, .ok ()⟩ ∧
      (Durable before tr.source 0 ⟨1⟩ ↔
        isCommit commitQuery = false ∧
          ∃ lsn mid, CommitLogged before 0 ⟨1⟩ lsn mid ∧ FlushedByOther mid 0) := by
  obtain ⟨before, tr, s, hrun, _, hcommit, rest, hbusy⟩ := run_commit
  exact ⟨before, tr, s, hrun, hcommit, commit_durable_iff (Nat.le_refl _) hrun rfl hcommit hbusy⟩

end OneConnection

end PostgressRs.Server.CommitDurability
