import PostgressRs.Executor.HeapContents
import PostgressRs.Server.StatementHandlers

/-!
What a statement does to the heap and to the connections, whatever transaction
it runs in.
-/

namespace PostgressRs.Server.HandlerSteps

open PostgressRs.Executor.HeapAccess
open PostgressRs.Executor.HeapContents
open PostgressRs.Lib.ByteBuffer
open PostgressRs.Lib.Procedure
open PostgressRs.Server.StatementHandlers
open PostgressRs.Storage.PageStore
open PostgressRs.Txn.TransactionTable
open PostgressRs.Types
open PostgressRs.Wal.LogRecord
open PostgressRs.Wal.WriteAheadLog

variable {σ : Type}

/-- The log may have grown, but no page, relation or xid counter has changed. -/
structure SameHeap (db db' : Database σ) : Prop where
  cache_eq : db'.cache = db.cache
  xid_eq : db'.wal.currentXid = db.wal.currentXid

theorem SameHeap.refl (db : Database σ) : SameHeap db db := ⟨rfl, rfl⟩

/-- The snapshot a statement on the connection gets. -/
def statementSnapshot (connection : Nat) (s : Server σ) : Snapshot :=
  match s.currentXid connection with
  | some xid => s.txnMgr.getSnapshotForStatement xid
  | none =>
      (s.txnMgr.begin .readCommitted).2.getSnapshotForStatement
        (s.txnMgr.begin .readCommitted).1

section Transactions

variable [Bincode] {s s' : Server σ} {connection : Nat}

theorem logRecord_cases {record : WALRecord} (h : logRecord record s = .ok () s') :
    ∃ db, s' = { s with db := db } ∧ SameHeap s.db db := by
  obtain ⟨result, s₁, hattempt, hpure⟩ := bind_eq_ok.mp h
  cases hpure
  obtain ⟨hstate, _⟩ := attempt_eq_ok hattempt
  have hkeeps : Keeps (fun t t' : Server σ => ∃ db, t' = { t with db := db } ∧ SameHeap t.db db)
      (onDb (onWal (append record))) :=
    keeps_within (keeps_onWal_append record) fun t db hdb => ⟨db, rfl, hdb.1, hdb.2⟩
  exact hkeeps s _ hstate

/-- A transaction is at hand afterwards, and the statement's snapshot is the one
of that transaction. -/
theorem openTransaction_cases {xid : TransactionId} {implicit : Bool}
    (h : openTransaction connection s = .ok (xid, implicit) s') :
    SameHeap s.db s'.db ∧ s'.txnMgr.getSnapshotForStatement xid = statementSnapshot connection s ∧
      ∀ x, s.currentXid connection = some x → s' = s ∧ implicit = false := by
  unfold openTransaction at h
  rw [bind_ok (read_apply _ s)] at h
  unfold statementSnapshot
  cases hxid : s.currentXid connection with
  | some x =>
      rw [hxid] at h
      cases h
      exact ⟨SameHeap.refl _, rfl, fun _ _ => ⟨rfl, rfl⟩⟩
  | none =>
      rw [hxid] at h
      obtain ⟨x, s₁, hbegin, h⟩ := bind_eq_ok.mp h
      cases hbegin
      obtain ⟨_, s₂, hset, h⟩ := bind_eq_ok.mp h
      cases hset
      obtain ⟨_, s₃, hlog, h⟩ := bind_eq_ok.mp h
      obtain ⟨db, rfl, hdb⟩ := logRecord_cases hlog
      cases h
      exact ⟨hdb, rfl, fun x hx => by cases hx⟩

theorem closeTransaction_cases {xid : TransactionId} {implicit : Bool}
    (h : closeTransaction connection xid implicit s = .ok () s') :
    SameHeap s.db s'.db ∧ (implicit = false → s' = s) := by
  unfold closeTransaction at h
  cases implicit with
  | false =>
      cases h
      exact ⟨SameHeap.refl _, fun _ => rfl⟩
  | true =>
      rw [if_pos rfl] at h
      obtain ⟨_, s₁, hlog, h⟩ := bind_eq_ok.mp h
      obtain ⟨db, rfl, hdb⟩ := logRecord_cases hlog
      cases h
      exact ⟨⟨hdb.cache_eq, hdb.xid_eq⟩, fun hfalse => by cases hfalse⟩

theorem inTransaction_cases {work : TransactionId → Proc (Server σ) Response}
    {response : Response} (h : inTransaction connection work s = .ok response s') :
    ∃ xid s₁ s₂, work xid s₁ = .ok response s₂ ∧ SameHeap s.db s₁.db ∧ SameHeap s₂.db s'.db ∧
      s₁.txnMgr.getSnapshotForStatement xid = statementSnapshot connection s ∧
      ∀ x, s.currentXid connection = some x → s₁ = s ∧ s' = s₂ := by
  obtain ⟨⟨xid, implicit⟩, s₁, hopen, h⟩ := bind_eq_ok.mp h
  obtain ⟨response', s₂, hwork, h⟩ := bind_eq_ok.mp h
  obtain ⟨_, s₃, hclose, h⟩ := bind_eq_ok.mp h
  cases h
  obtain ⟨hbefore, hsnapshot, hsome⟩ := openTransaction_cases hopen
  obtain ⟨hafter, hfalse⟩ := closeTransaction_cases hclose
  refine ⟨xid, s₁, s₂, hwork, hbefore, hafter, hsnapshot, ?_⟩
  intro x hx
  obtain ⟨hsame, himplicit⟩ := hsome x hx
  exact ⟨hsame, hfalse himplicit⟩

end Transactions

section Statements

variable [Bincode] [StorageTrait σ] {s s' : Server σ} {relOid : Oid} {event : Event}

/-- The work of a statement on the heap. -/
def HeapEffect (relOid : Oid) (statement : Statement) (snapshot : Snapshot)
    (response : Response) (db db' : Database σ) : Prop :=
  match statement with
  | .insert values =>
      (tupleInsert relOid values db).state? = some db' ∧
        (response = .commandComplete "INSERT 1" → tupleInsert relOid values db = .ok () db')
  | .update value => (tupleUpdate relOid 0 value none db).state? = some db'
  | .delete => (tupleDelete relOid none db).state? = some db'
  | .select =>
      (heapScanWithOptionalSnapshot relOid (some snapshot) db).state? = some db' ∧
        ∀ rows, response = .rows rows →
          heapScanWithOptionalSnapshot relOid (some snapshot) db = .ok rows db'
  | .begin _ | .commit | .rollback => db' = db

omit [Bincode] [StorageTrait σ] in
theorem attemptDb_cases {α : Type} {p : Proc (Database σ) α} {result : Except String α}
    (h : attempt (onDb p) s = .ok result s') :
    ∃ db, s' = { s with db := db } ∧
      match result with
      | .ok a => p s.db = .ok a db
      | .error e => p s.db = .err e db := by
  unfold attempt onDb within at h
  cases hp : p s.db with
  | ok a db =>
      rw [hp] at h
      cases h
      exact ⟨db, rfl, rfl⟩
  | err e db =>
      rw [hp] at h
      cases h
      exact ⟨db, rfl, rfl⟩
  | panic =>
      rw [hp] at h
      cases h

omit [Bincode] [StorageTrait σ] in
/-- The body shared by the handlers that run one procedure on the heap. -/
theorem work_cases {α : Type} {p : Proc (Database σ) α} {answer : α → Response}
    {response : Response}
    (h : (attempt (onDb p) >>= fun result => pure (reply answer result)) s = .ok response s') :
    ∃ db, s' = { s with db := db } ∧ (p s.db).state? = some db ∧
      ((∃ a, response = answer a ∧ p s.db = .ok a db) ∨ ∃ e, response = .error e) := by
  obtain ⟨result, s₁, hattempt, h⟩ := bind_eq_ok.mp h
  obtain ⟨db, rfl, hp⟩ := attemptDb_cases hattempt
  cases result with
  | ok a =>
      cases h
      exact ⟨db, rfl, by rw [hp]; rfl, Or.inl ⟨a, rfl, hp⟩⟩
  | error e =>
      cases h
      exact ⟨db, rfl, by rw [hp]; rfl, Or.inr ⟨e, rfl⟩⟩

omit [Bincode] [StorageTrait σ] in
theorem beginStatement_apply (isolationLevel : Option IsolationLevel) (connection : Nat)
    (s : Server σ) :
    handleBeginStatement isolationLevel connection s =
      .ok (.commandComplete "BEGIN")
        { db := s.db
          txnMgr := (s.txnMgr.begin (isolationLevel.getD .readCommitted)).2
          currentXid := Function.update s.currentXid connection
            (some (s.txnMgr.begin (isolationLevel.getD .readCommitted)).1) } := rfl

omit [StorageTrait σ] in
theorem finishStatement_cases {record : TransactionId → WALRecord} {tag : String}
    {connection : Nat} {response : Response}
    (h : finishStatement record tag connection s = .ok response s') : SameHeap s.db s'.db := by
  unfold finishStatement at h
  rw [bind_ok (read_apply _ s)] at h
  cases hxid : s.currentXid connection with
  | some xid =>
      rw [hxid] at h
      obtain ⟨_, s₁, hend, h⟩ := bind_eq_ok.mp h
      cases hend
      obtain ⟨_, s₂, hlog, h⟩ := bind_eq_ok.mp h
      obtain ⟨db, rfl, hdb⟩ := logRecord_cases hlog
      cases h
      exact ⟨hdb.cache_eq, hdb.xid_eq⟩
  | none =>
      rw [hxid] at h
      cases h
      exact SameHeap.refl _

theorem serverStep_effect (h : ServerStep relOid s event s') :
    ∃ db₁ db₂, SameHeap s.db db₁ ∧
      HeapEffect relOid event.statement (statementSnapshot event.connection s) event.response
        db₁ db₂ ∧
      SameHeap db₂ s'.db := by
  obtain ⟨connection, statement, response⟩ := event
  unfold ServerStep handleStatement at h
  cases statement with
  | begin isolationLevel =>
      change handleBeginStatement isolationLevel connection s = .ok response s' at h
      rw [beginStatement_apply] at h
      cases h
      exact ⟨s.db, s.db, SameHeap.refl _, rfl, SameHeap.refl _⟩
  | insert values =>
      obtain ⟨xid, s₁, s₂, hwork, hbefore, hafter, -⟩ := inTransaction_cases h
      obtain ⟨db, rfl, hstate, hreply⟩ := work_cases hwork
      refine ⟨s₁.db, db, hbefore, ⟨hstate, ?_⟩, hafter⟩
      rintro rfl
      rcases hreply with ⟨_, _, hok⟩ | ⟨e, he⟩
      · exact hok
      · cases he
  | update value =>
      obtain ⟨xid, s₁, s₂, hwork, hbefore, hafter, -⟩ := inTransaction_cases h
      obtain ⟨db, rfl, hstate, -⟩ := work_cases hwork
      exact ⟨s₁.db, db, hbefore, hstate, hafter⟩
  | delete =>
      obtain ⟨xid, s₁, s₂, hwork, hbefore, hafter, -⟩ := inTransaction_cases h
      obtain ⟨db, rfl, hstate, -⟩ := work_cases hwork
      exact ⟨s₁.db, db, hbefore, hstate, hafter⟩
  | select =>
      obtain ⟨xid, s₁, s₂, hwork, hbefore, hafter, hsnapshot, -⟩ := inTransaction_cases h
      rw [bind_ok (read_apply _ s₁), hsnapshot] at hwork
      obtain ⟨db, rfl, hstate, hreply⟩ := work_cases hwork
      refine ⟨s₁.db, db, hbefore, ⟨hstate, ?_⟩, hafter⟩
      rintro rows rfl
      rcases hreply with ⟨rows', hrows, hok⟩ | ⟨e, he⟩
      · cases hrows
        exact hok
      · cases he
  | commit => exact ⟨s.db, s.db, SameHeap.refl _, rfl, finishStatement_cases h⟩
  | rollback => exact ⟨s.db, s.db, SameHeap.refl _, rfl, finishStatement_cases h⟩

end Statements

section Sessions

/-- The connection is in the same transaction, or in none as before. -/
def SameSession (connection : Nat) (s s' : Server σ) : Prop :=
  s'.currentXid connection = s.currentXid connection

instance (connection : Nat) : Std.Refl (@SameSession σ connection) where
  refl _ := rfl

instance (connection : Nat) : IsTrans (Server σ) (SameSession connection) where
  trans _ _ _ h h' := Eq.trans h' h

variable {connection current : Nat}

theorem keeps_onDb {α : Type} (p : Proc (Database σ) α) :
    Keeps (SameSession connection) (onDb p) := by
  have hany : Keeps (fun _ _ => True) p := fun _ _ _ => trivial
  exact keeps_within hany fun _ _ _ => rfl

theorem keeps_setCurrentXid (hne : connection ≠ current) (xid : Option TransactionId) :
    Keeps (@SameSession σ connection) (setCurrentXid current xid) :=
  keeps_modify fun _ => Function.update_of_ne hne _ _

variable [Bincode]

theorem keeps_logRecord (record : WALRecord) :
    Keeps (@SameSession σ connection) (logRecord record) :=
  keeps_bind (keeps_attempt (keeps_onDb _)) fun _ => keeps_pure _

theorem keeps_inTransaction (hne : connection ≠ current)
    {work : TransactionId → Proc (Server σ) Response}
    (hwork : ∀ xid, Keeps (SameSession connection) (work xid)) :
    Keeps (SameSession connection) (inTransaction current work) := by
  have hopen : Keeps (@SameSession σ connection) (openTransaction current) := by
    refine keeps_bind (keeps_read _) fun xid => ?_
    cases xid with
    | some xid => exact keeps_pure _
    | none =>
        have hbegin : Keeps (@SameSession σ connection)
            (beginTransaction .readCommitted) := by
          intro s s' h
          cases h
          rfl
        refine keeps_bind hbegin fun xid => ?_
        refine keeps_bind (keeps_setCurrentXid hne _) fun _ => ?_
        exact keeps_bind (keeps_logRecord _) fun _ => keeps_pure _
  have hclose : ∀ xid implicit, Keeps (@SameSession σ connection)
      (closeTransaction current xid implicit) := by
    intro xid implicit
    cases implicit with
    | false => exact keeps_pure _
    | true =>
        refine keeps_bind (keeps_logRecord _) fun _ => ?_
        refine keeps_bind (keeps_modify fun _ => rfl) fun _ => ?_
        exact keeps_bind (keeps_onDb _) fun _ => keeps_setCurrentXid hne _
  refine keeps_bind hopen fun opened => ?_
  refine keeps_bind (hwork _) fun response => ?_
  exact keeps_bind (hclose _ _) fun _ => keeps_pure _

variable [StorageTrait σ]

theorem keeps_handleStatement (hne : connection ≠ current) (relOid : Oid)
    (statement : Statement) :
    Keeps (@SameSession σ connection) (handleStatement relOid current statement) := by
  have hwork : ∀ {α : Type} (p : Proc (Database σ) α) (answer : α → Response),
      Keeps (SameSession connection)
        (attempt (onDb p) >>= fun result => pure (reply answer result)) :=
    fun p answer => keeps_bind (keeps_attempt (keeps_onDb p)) fun _ => keeps_pure _
  have hfinish : ∀ (record : TransactionId → WALRecord) (tag : String),
      Keeps (@SameSession σ connection) (finishStatement record tag current) := by
    intro record tag
    refine keeps_bind (keeps_read _) fun xid => ?_
    cases xid with
    | some xid =>
        refine keeps_bind (keeps_modify fun _ => rfl) fun _ => ?_
        refine keeps_bind (keeps_logRecord _) fun _ => ?_
        refine keeps_bind (keeps_onDb _) fun _ => ?_
        exact keeps_bind (keeps_setCurrentXid hne _) fun _ => keeps_pure _
    | none => exact keeps_bind (keeps_setCurrentXid hne _) fun _ => keeps_pure _
  cases statement with
  | begin isolationLevel =>
      intro s s' h
      cases h
      exact Function.update_of_ne hne _ _
  | insert values => exact keeps_inTransaction hne fun _ => hwork _ _
  | update value => exact keeps_inTransaction hne fun _ => hwork _ _
  | delete => exact keeps_inTransaction hne fun _ => hwork _ _
  | select =>
      change Keeps _ (handleSelectStatement relOid current)
      unfold handleSelectStatement
      refine keeps_inTransaction hne fun _ => ?_
      exact keeps_bind (keeps_read _) fun snapshot => hwork _ _
  | commit => exact hfinish _ _
  | rollback => exact hfinish _ _

/-- A statement leaves the transactions of other connections alone, and a
`SELECT` inside a transaction its own. -/
theorem serverStep_currentXid {relOid : Oid} {s s' : Server σ} {event : Event}
    (h : ServerStep relOid s event s')
    (hselect : event.connection = connection → event.statement = .select)
    {xid : TransactionId} (hxid : s.currentXid connection = some xid) :
    s'.currentXid connection = some xid := by
  obtain ⟨current, statement, response⟩ := event
  by_cases hconnection : current = connection
  · subst hconnection
    obtain rfl : statement = .select := hselect rfl
    have hhandle : handleSelectStatement relOid current s = .ok response s' := h
    obtain ⟨_, s₁, s₂, hwork, -, -, -, hsome⟩ := inTransaction_cases hhandle
    obtain ⟨rfl, rfl⟩ := hsome xid hxid
    rw [bind_ok (read_apply _ s₁)] at hwork
    obtain ⟨db, rfl, -⟩ := work_cases hwork
    exact hxid
  · rw [← hxid]
    exact (keeps_handleStatement (Ne.symm hconnection) relOid statement).ok h

end Sessions

section Forward

variable [Bincode] {s : Server σ} {relOid : Oid} {connection : Nat} {xid : TransactionId}

theorem inTransaction_ok {work : TransactionId → Proc (Server σ) Response} {s' : Server σ}
    {response : Response} (hxid : s.currentXid connection = some xid)
    (hwork : work xid s = .ok response s') :
    inTransaction connection work s = .ok response s' := by
  have hopen : openTransaction connection s = .ok (xid, false) s := by
    rw [openTransaction, bind_ok (read_apply _ s), hxid]
    rfl
  rw [inTransaction, bind_ok hopen]
  exact bind_ok hwork

omit [Bincode] in
theorem attemptDb_ok {α : Type} {p : Proc (Database σ) α} {a : α} {db : Database σ}
    (h : p s.db = .ok a db) : attempt (onDb p) s = .ok (.ok a) { s with db := db } :=
  attempt_ok (within_ok h)

variable [StorageTrait σ]

theorem insert_step {values : List Bytes} {db : Database σ}
    (hxid : s.currentXid connection = some xid)
    (h : tupleInsert relOid values s.db = .ok () db) :
    ServerStep relOid s ⟨connection, .insert values, .commandComplete "INSERT 1"⟩
      { s with db := db } := by
  have hwork : (attempt (onDb (tupleInsert relOid values)) >>= fun result =>
      pure (reply (fun _ => .commandComplete "INSERT 1") result)) s =
        .ok (.commandComplete "INSERT 1") { s with db := db } := bind_ok (attemptDb_ok h)
  change handleInsertStatement relOid values connection s = _
  exact inTransaction_ok hxid hwork

theorem select_step {rows : List Row} {db : Database σ}
    (hxid : s.currentXid connection = some xid)
    (h : heapScanWithOptionalSnapshot relOid (some (s.txnMgr.getSnapshotForStatement xid)) s.db =
      .ok rows db) :
    ServerStep relOid s ⟨connection, .select, .rows rows⟩ { s with db := db } := by
  change handleSelectStatement relOid connection s = _
  apply inTransaction_ok hxid
  rw [bind_ok (read_apply _ s)]
  exact bind_ok (attemptDb_ok h)

omit [StorageTrait σ] in
theorem finishStatement_ok (record : TransactionId → WALRecord) (tag : String) {data : Bytes}
    {count : Nat} (hxid : s.currentXid connection = some xid)
    (hwal : Ready s.db.wal (count + 1)) (hdata : serializeRecord (record xid) = .ok data)
    (hsize : data.length ≤ 8192) :
    ∃ wal, finishStatement record tag connection s =
        .ok (.commandComplete tag)
          { db := { s.db with wal := wal }
            txnMgr := (s.txnMgr.finish xid).2
            currentXid := Function.update s.currentXid connection none } ∧
      Ready wal count ∧ wal.currentXid = s.db.wal.currentXid := by
  obtain ⟨lsn, wal', happend, hready, hsame⟩ := append_ok hwal hdata hsize
  have hend : endTransaction xid s = .ok () { s with txnMgr := (s.txnMgr.finish xid).2 } := rfl
  have hon : onWal (append (record xid)) s.db = .ok lsn { s.db with wal := wal' } :=
    within_ok happend
  have hlog : logRecord (record xid) { s with txnMgr := (s.txnMgr.finish xid).2 } =
      .ok () { s with txnMgr := (s.txnMgr.finish xid).2, db := { s.db with wal := wal' } } :=
    bind_ok (attemptDb_ok hon)
  refine ⟨{ wal' with flushedLsn := wal'.currentLsn, flushCount := wal'.flushCount + 1 }, ?_,
    ⟨hready.segment_pos, hready.page_length, hready.lsn_lt⟩, hsame⟩
  rw [finishStatement, bind_ok (read_apply _ s), hxid]
  simp only
  rw [bind_ok hend, bind_ok hlog]
  rfl

end Forward

end PostgressRs.Server.HandlerSteps
