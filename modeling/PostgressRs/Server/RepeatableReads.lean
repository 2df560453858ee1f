import PostgressRs.Executor.FetchedVersions
import PostgressRs.Server.TransactionVisibility

/-!
When two reads of one transaction return the same rows.  The snapshot that
`begin` takes is not used: each statement is given one of the transactions that
are active when it starts.
-/

namespace PostgressRs.Server.RepeatableReads

open PostgressRs.BufferCache.PagePool
open PostgressRs.BufferCache.PinnedPool
open PostgressRs.BufferCache.SharedCache
open PostgressRs.Executor.FetchedVersions
open PostgressRs.Executor.HeapAccess
open PostgressRs.Executor.HeapContents
open PostgressRs.Executor.HeapInvariant
open PostgressRs.Executor.HeapSteps
open PostgressRs.Executor.InsertComplete
open PostgressRs.Executor.PooledScan
open PostgressRs.Executor.RowVersions
open PostgressRs.Lib.ByteBuffer
open PostgressRs.Lib.Procedure
open PostgressRs.Lib.Transitions
open PostgressRs.Lib.Utf8
open PostgressRs.Server.HandlerSteps
open PostgressRs.Server.StatementHandlers
open PostgressRs.Server.TableRuns
open PostgressRs.Server.TransactionVisibility
open PostgressRs.Storage.PageContents
open PostgressRs.Storage.PageRoundTrip
open PostgressRs.Storage.PageStore
open PostgressRs.Storage.SlottedPage
open PostgressRs.Txn.TransactionTable
open PostgressRs.Types
open PostgressRs.Wal.LogRecord
open PostgressRs.Wal.WriteAheadLog

section Active

variable {σ : Type} {s s' : Server σ} {connection : Nat} {xid y : TransactionId}

/-- The transaction that a statement begins or ends; a statement outside a
transaction does both to one of its own. -/
def switchedXid (s : Server σ) (event : Event) : Option TransactionId :=
  match event.statement with
  | .begin _ => some ⟨s.txnMgr.nextXid⟩
  | .commit | .rollback => s.currentXid event.connection
  | .insert _ | .update _ | .delete | .select =>
      match s.currentXid event.connection with
      | some _ => none
      | none => some ⟨s.txnMgr.nextXid⟩

def SameActive (y : TransactionId) (mgr mgr' : TransactionManager) : Prop :=
  y ∈ mgr'.active ↔ y ∈ mgr.active

theorem begin_active (mgr : TransactionManager) (isolation : IsolationLevel)
    (hne : y ≠ ⟨mgr.nextXid⟩) : SameActive y mgr (mgr.begin isolation).2 := by
  unfold SameActive TransactionManager.begin
  rw [AList.mem_insert]
  exact or_iff_right hne

theorem finish_active (mgr : TransactionManager) (hne : y ≠ xid) :
    SameActive y mgr (mgr.finish xid).2 := by
  unfold SameActive TransactionManager.finish
  cases mgr.active.lookup xid with
  | some _ =>
      rw [AList.mem_erase]
      exact and_iff_right hne
  | none => exact Iff.rfl

variable [Bincode]

theorem openTransaction_active {implicit : Bool}
    (h : openTransaction connection s = .ok (xid, implicit) s')
    (hy : s.currentXid connection = none → y ≠ ⟨s.txnMgr.nextXid⟩) :
    SameActive y s.txnMgr s'.txnMgr ∧ (implicit = true → y ≠ xid) := by
  unfold openTransaction at h
  rw [bind_ok (read_apply _ s)] at h
  cases hxid : s.currentXid connection with
  | some x =>
      rw [hxid] at h
      cases h
      exact ⟨Iff.rfl, fun hfalse => by cases hfalse⟩
  | none =>
      rw [hxid] at h
      obtain ⟨x, s₁, hbegin, hrest⟩ := bind_eq_ok.mp h
      cases hbegin
      obtain ⟨_, s₂, hset, hrest⟩ := bind_eq_ok.mp hrest
      cases hset
      obtain ⟨_, s₃, hlog, hrest⟩ := bind_eq_ok.mp hrest
      obtain ⟨db, rfl, _⟩ := logRecord_cases hlog
      cases hrest
      exact ⟨begin_active _ .readCommitted (hy hxid), fun _ => hy hxid⟩

theorem closeTransaction_active {implicit : Bool}
    (h : closeTransaction connection xid implicit s = .ok () s')
    (hy : implicit = true → y ≠ xid) : SameActive y s.txnMgr s'.txnMgr := by
  unfold closeTransaction at h
  cases implicit with
  | false =>
      cases h
      exact Iff.rfl
  | true =>
      rw [if_pos rfl] at h
      obtain ⟨_, s₁, hlog, hrest⟩ := bind_eq_ok.mp h
      obtain ⟨db, rfl, _⟩ := logRecord_cases hlog
      cases hrest
      exact finish_active _ (hy rfl)

theorem inTransaction_active {work : TransactionId → Proc (Server σ) Response}
    {response : Response}
    (hwork : ∀ xid s₁ s₂ response, work xid s₁ = .ok response s₂ → s₂.txnMgr = s₁.txnMgr)
    (h : inTransaction connection work s = .ok response s')
    (hy : s.currentXid connection = none → y ≠ ⟨s.txnMgr.nextXid⟩) :
    SameActive y s.txnMgr s'.txnMgr := by
  obtain ⟨⟨xid, implicit⟩, s₁, hopen, hrest⟩ := bind_eq_ok.mp h
  obtain ⟨response', s₂, hdone, hrest⟩ := bind_eq_ok.mp hrest
  obtain ⟨_, s₃, hclose, hrest⟩ := bind_eq_ok.mp hrest
  cases hrest
  obtain ⟨hbefore, himplicit⟩ := openTransaction_active hopen hy
  have hafter := closeTransaction_active hclose himplicit
  rw [hwork _ _ _ _ hdone] at hafter
  exact hafter.trans hbefore

theorem finishStatement_active {record : TransactionId → WALRecord} {tag : String}
    {response : Response} (h : finishStatement record tag connection s = .ok response s')
    (hy : s.currentXid connection ≠ some y) : SameActive y s.txnMgr s'.txnMgr := by
  unfold finishStatement at h
  rw [bind_ok (read_apply _ s)] at h
  cases hxid : s.currentXid connection with
  | some xid =>
      rw [hxid] at h hy
      obtain ⟨_, s₁, hend, hrest⟩ := bind_eq_ok.mp h
      cases hend
      obtain ⟨_, s₂, hlog, hrest⟩ := bind_eq_ok.mp hrest
      obtain ⟨db, rfl, _⟩ := logRecord_cases hlog
      cases hrest
      exact finish_active _ fun heq => hy (congrArg some heq.symm)
  | none =>
      rw [hxid] at h
      cases h
      exact Iff.rfl

variable [StorageTrait σ]

/-- A statement switches at most one transaction. -/
theorem serverStep_active {relOid : Oid} {event : Event} (h : ServerStep relOid s event s')
    (hy : switchedXid s event ≠ some y) : SameActive y s.txnMgr s'.txnMgr := by
  obtain ⟨connection, statement, response⟩ := event
  have himplicit : ∀ {statement : Statement} {response : Response},
      switchedXid s ⟨connection, statement, response⟩ ≠ some y →
      (match s.currentXid connection with
        | some _ => none
        | none => some ⟨s.txnMgr.nextXid⟩) = switchedXid s ⟨connection, statement, response⟩ →
      s.currentXid connection = none → y ≠ ⟨s.txnMgr.nextXid⟩ := by
    intro statement response hne hswitched hnone heq
    rw [← hswitched, hnone] at hne
    exact hne (congrArg some heq.symm)
  have hdone : ∀ {α : Type} {p : Proc (Database σ) α} {answer : α → Response}
      {s₁ s₂ : Server σ} {response : Response},
      (attempt (onDb p) >>= fun result => pure (reply answer result)) s₁ = .ok response s₂ →
      s₂.txnMgr = s₁.txnMgr := by
    intro α p answer s₁ s₂ response hwork
    obtain ⟨db, rfl, -⟩ := work_cases hwork
    rfl
  unfold ServerStep handleStatement at h
  cases statement with
  | begin isolationLevel =>
      change handleBeginStatement isolationLevel connection s = .ok response s' at h
      rw [beginStatement_apply] at h
      cases h
      exact begin_active _ _ fun heq => hy (congrArg some heq.symm)
  | insert values =>
      exact inTransaction_active (fun _ _ _ _ hwork => hdone hwork) h (himplicit hy rfl)
  | update value =>
      exact inTransaction_active (fun _ _ _ _ hwork => hdone hwork) h (himplicit hy rfl)
  | delete =>
      exact inTransaction_active (fun _ _ _ _ hwork => hdone hwork) h (himplicit hy rfl)
  | select =>
      refine inTransaction_active ?_ h (himplicit hy rfl)
      intro xid s₁ s₂ response hwork
      rw [bind_ok (read_apply _ s₁)] at hwork
      exact hdone hwork
  | commit => exact finishStatement_active h hy
  | rollback => exact finishStatement_active h hy

end Active

section Views

variable [Bincode] {σ : Type} [StorageTrait σ]

/-- The xid on a version is that of transaction `y`: only its low 32 bits count. -/
def NamesXid (y : TransactionId) (x : UInt64) : Prop := x ≠ 0 ∧ x.toUInt32 = y.val

/-- A version that a fetch finds was written or deleted under `y`. -/
def BearsXid (relOid : Oid) (db : Database σ) (y : TransactionId) : Prop :=
  ∃ rel, db.cache.rels.lookup relOid = some rel ∧
    ∃ tup ∈ fetchedVersions db.cache.disk rel.pages, NamesXid y tup.xmin ∨ NamesXid y tup.xmax

/-- An `UPDATE` or a `DELETE` writes pages only that are in the pool, and a
`SELECT` finds a slot there for each page. -/
def SparesPages (relOid : Oid) (db : Database σ) (statement : Statement) : Prop :=
  ∀ rel, db.cache.rels.lookup relOid = some rel →
    match statement with
    | .update value =>
        ∀ p ∈ rel.pages, slotOf db.cache.disk.pool p ≠ none ∨
          ¬UpdatesOn db.cache.disk.storage rel.tupleDesc 0 value none p
    | .delete =>
        ∀ p ∈ rel.pages, slotOf db.cache.disk.pool p ≠ none ∨
          ¬DeletesOn db.cache.disk.storage rel.tupleDesc none p
    | .select => rel.pages.length ≤ 1024
    | .insert _ | .begin _ | .commit | .rollback => True

/-- Between two reads of transaction `xid`, the statement disturbs neither: no
transaction below `xid` begins or ends whose xid is on a row version, and a new
row does not get to where fetches find it or has an xid that the transaction's
snapshot does not cover. -/
structure Steady (relOid : Oid) (xid : TransactionId) (s : Server σ) (event : Event) : Prop where
  switched : ∀ y, switchedXid s event = some y → y.val < xid.val → ¬BearsXid relOid s.db y ∧
    ∀ x, Stamp relOid s.db event.statement x → ¬NamesXid y x
  inserted : ∀ values rel, event.statement = .insert values →
    s.db.cache.rels.lookup relOid = some rel → ¬Lands s.db rel values ∨
      ¬Covers (s.txnMgr.getSnapshotForStatement xid) s.db.wal.currentXid
  spared : SparesPages relOid s.db event.statement

variable {relOid : Oid} {rel rel' : Relation} {s s' : Server σ} {xid : TransactionId}
  {event : Event} {db db' : Database σ}

omit [Bincode] [StorageTrait σ] in
theorem covers_iff_of_active {mgr mgr' : TransactionManager} {x : UInt64}
    (h : ∀ y, NamesXid y x → y.val < xid.val → SameActive y mgr mgr') :
    Covers (mgr'.getSnapshotForStatement xid) x ↔ Covers (mgr.getSnapshotForStatement xid) x := by
  unfold Covers TransactionManager.getSnapshotForStatement
  by_cases hzero : x = 0
  · simp [hzero]
  · by_cases hlt : x.toUInt32 < xid.val
    · have hsame := h ⟨x.toUInt32⟩ ⟨hzero, rfl⟩ hlt
      simp only [AList.mem_keys, SameActive] at hsame ⊢
      rw [hsame]
    · simp [hlt]

omit [Bincode] [StorageTrait σ] in
theorem shownValues_congr {snapshot snapshot' : Snapshot} (desc : TupleDesc)
    {versions : List Tuple}
    (h : ∀ tup ∈ versions, (Covers snapshot' tup.xmin ↔ Covers snapshot tup.xmin) ∧
      (Covers snapshot' tup.xmax ↔ Covers snapshot tup.xmax)) :
    shownValues snapshot' desc versions = shownValues snapshot desc versions := by
  unfold shownValues
  congr 1
  apply List.filter_congr
  intro tup htup
  rw [Bool.eq_iff_iff, isVisible_iff, isVisible_iff, (h tup htup).1, (h tup htup).2]

theorem SparesPages.of_sameHeap {statement : Statement} (h : SparesPages relOid db statement)
    (hsame : SameHeap db db') : SparesPages relOid db' statement := by
  unfold SparesPages at h ⊢
  rw [hsame.cache_eq]
  exact h

theorem SparesPages.pagesFit {statement : Statement} (h : SparesPages relOid db statement) :
    PagesFit relOid db statement := by
  rintro rfl rel hrel
  exact h rel hrel

theorem fetched_of_rewrites {touched : PageId → Prop}
    (hR : Rewrites (fun _ => True) touched db db')
    (hspared : ∀ p ∈ rel.pages, slotOf db.cache.disk.pool p ≠ none ∨ ¬touched p) :
    fetchedVersions db'.cache.disk rel.pages = fetchedVersions db.cache.disk rel.pages := by
  apply fetchedVersions_congr
  intro p hp
  rcases hspared p hp with hmapped | huntouched
  · exact fetched_of_mapped hR.pool_eq hmapped
  · exact fetched_of_read hR.pool_eq (hR.untouched p huntouched)

variable [LawfulStorage σ] [LawfulBincode]

/-- A statement changes what fetches find only by a row that lands. -/
theorem effect_fetched {statement : Statement} {view : Snapshot} {response : Response}
    (h : Sane (fun _ => True) relOid rel db) (hspares : SparesPages relOid db statement)
    (heffect : HeapEffect relOid statement view response db db') :
    ∃ rel', Sane (fun _ => True) relOid rel' db' ∧ rel'.tupleDesc = rel.tupleDesc ∧
      (fetchedVersions db'.cache.disk rel'.pages = fetchedVersions db.cache.disk rel.pages ∨
        ∃ values, statement = .insert values ∧ Lands db rel values ∧
          Grows (newTuple values db.wal.currentXid) (fetchedVersions db.cache.disk rel.pages)
            (fetchedVersions db'.cache.disk rel'.pages)) := by
  obtain ⟨rel', hsane', hextends⟩ := effect_sane h hspares.pagesFit heffect
  have hspared := hspares rel h.registered
  have hkept : ∀ {touched : PageId → Prop}, Rewrites (fun _ => True) touched db db' →
      (∀ p ∈ rel.pages, slotOf db.cache.disk.pool p ≠ none ∨ ¬touched p) →
      fetchedVersions db'.cache.disk rel'.pages = fetchedVersions db.cache.disk rel.pages := by
    intro touched hR hspared
    have hrel : db'.cache.rels.lookup relOid = some rel := by
      rw [hR.rels_eq]
      exact h.registered
    obtain rfl : rel = rel' := Option.some.inj (hrel.symm.trans hsane'.registered)
    exact fetched_of_rewrites hR hspared
  refine ⟨rel', hsane', hextends.1, ?_⟩
  cases statement with
  | insert values =>
      rcases inserted_fetched h (tupleInsert_state heffect.1) hsane'.registered with
        hsame | ⟨hlands, hadded⟩
      · exact Or.inl hsame
      · exact Or.inr ⟨values, rfl, hlands, hadded⟩
  | update value =>
      exact Or.inl (hkept (tupleUpdate_rewrites h (fun _ _ => stamps_true _) heffect) hspared)
  | delete =>
      exact Or.inl (hkept (tupleDelete_rewrites (W := fun _ => True) h
        (fun _ _ => ⟨(stamps_true _).1, trivial⟩) heffect).1 hspared)
  | select =>
      left
      rcases heapScan_sane h hspared (some view) with ⟨hpanic, _⟩ | ⟨disk, hok, hloaded, _⟩
      · have hstate := heffect.1
        rw [hpanic] at hstate
        cases hstate
      · have hstate := heffect.1
        rw [hok] at hstate
        cases hstate
        obtain rfl : rel = rel' := Option.some.inj (h.registered.symm.trans hsane'.registered)
        exact fetchedVersions_congr fun p _ => fetched_congr (hloaded.pooledRead_eq p)
  | begin | commit | rollback =>
      left
      obtain rfl : db' = db := heffect
      obtain rfl : rel = rel' := Option.some.inj (h.registered.symm.trans hsane'.registered)
      rfl

end Views

section Reads

variable [Bincode] {σ : Type} [StorageTrait σ]

/-- The rows that a `SELECT` of transaction `xid` returns. -/
def readRows (relOid : Oid) (xid : TransactionId) (s : Server σ) : List (List String) :=
  match s.db.cache.rels.lookup relOid with
  | some rel =>
      shownValues (s.txnMgr.getSnapshotForStatement xid) rel.tupleDesc
        (fetchedVersions s.db.cache.disk rel.pages)
  | none => []

variable {relOid : Oid} {rel rel' : Relation} {s s' t t' u u' : Server σ} {xid : TransactionId}
  {event : Event}

theorem readRows_eq (hrel : s.db.cache.rels.lookup relOid = some rel) :
    readRows relOid xid s =
      shownValues (s.txnMgr.getSnapshotForStatement xid) rel.tupleDesc
        (fetchedVersions s.db.cache.disk rel.pages) := by
  simp only [readRows, hrel]

variable [LawfulStorage σ] [LawfulBincode]

omit [LawfulStorage σ] in
theorem select_reads {P : Tuple → Prop} {connection : Nat} {rows : List Row}
    (h : Sane P relOid rel s.db) (hfit : PagesFit relOid s.db .select)
    (hxid : s.currentXid connection = some xid)
    (hstep : ServerStep relOid s ⟨connection, .select, .rows rows⟩ s') :
    rows.map Prod.snd = readRows relOid xid s := by
  have hsnapshot : statementSnapshot connection s = s.txnMgr.getSnapshotForStatement xid := by
    simp only [statementSnapshot, hxid]
  rw [select_rows h hfit hstep, hsnapshot, scanRows_fetched _ _ h.pooled,
    readRows_eq h.registered]

/-- A steady statement leaves the reads of the transaction as they are. -/
theorem steady_step (h : Sane (fun _ => True) relOid rel s.db)
    (hsteady : Steady relOid xid s event) (hstep : ServerStep relOid s event s') :
    ∃ rel', Sane (fun _ => True) relOid rel' s'.db ∧
      readRows relOid xid s' = readRows relOid xid s := by
  obtain ⟨db₁, db₂, hbefore, heffect, hafter⟩ := serverStep_effect hstep
  obtain ⟨rel', hsane₂, hdesc, hfetched⟩ := effect_fetched (h.of_cache hbefore.cache_eq)
    (hsteady.spared.of_sameHeap hbefore) heffect
  have hsane' : Sane (fun _ => True) relOid rel' s'.db := hsane₂.of_cache hafter.cache_eq
  have hcovers : ∀ x, (∀ y, switchedXid s event = some y → y.val < xid.val → ¬NamesXid y x) →
      (Covers (s'.txnMgr.getSnapshotForStatement xid) x ↔
        Covers (s.txnMgr.getSnapshotForStatement xid) x) := by
    intro x hx
    apply covers_iff_of_active
    intro y hnames hlt
    apply serverStep_active hstep
    intro hswitched
    exact hx y hswitched hlt hnames
  have hrows : shownValues (s'.txnMgr.getSnapshotForStatement xid) rel.tupleDesc
        (fetchedVersions s.db.cache.disk rel.pages) =
      shownValues (s.txnMgr.getSnapshotForStatement xid) rel.tupleDesc
        (fetchedVersions s.db.cache.disk rel.pages) := by
    apply shownValues_congr
    intro tup htup
    have hbears : ∀ y, switchedXid s event = some y → y.val < xid.val →
        ¬(NamesXid y tup.xmin ∨ NamesXid y tup.xmax) := fun y hy hlt hnames =>
      (hsteady.switched y hy hlt).1 ⟨rel, h.registered, tup, htup, hnames⟩
    exact ⟨hcovers _ fun y hy hlt hnames => hbears y hy hlt (Or.inl hnames),
      hcovers _ fun y hy hlt hnames => hbears y hy hlt (Or.inr hnames)⟩
  refine ⟨rel', hsane', ?_⟩
  rw [readRows_eq hsane'.registered, readRows_eq h.registered, hdesc, hafter.cache_eq, ← hrows]
  rw [hbefore.cache_eq, hbefore.xid_eq] at hfetched
  rcases hfetched with hsame | ⟨values, hvalues, hlands, hadded⟩
  · rw [hsame]
  · have hlands' : Lands s.db rel values := by
      unfold Lands PageFull at hlands ⊢
      rw [hbefore.cache_eq, hbefore.xid_eq] at hlands
      exact hlands
    have huncovered : ¬Covers (s'.txnMgr.getSnapshotForStatement xid) s.db.wal.currentXid := by
      rw [hcovers]
      · exact (hsteady.inserted values rel hvalues h.registered).resolve_left fun hnot =>
          hnot hlands'
      · intro y hy hlt
        refine (hsteady.switched y hy hlt).2 _ ?_
        rw [hvalues]
        exact ⟨rel, h.registered, 0, Nat.zero_lt_one, (UInt64.add_zero _).symm⟩
    have hhidden : isVisible (newTuple values s.db.wal.currentXid)
        (s'.txnMgr.getSnapshotForStatement xid) = false := by
      rw [← Bool.not_eq_true, isVisible_iff]
      exact fun hvisible => huncovered hvisible.1
    rw [shownValues, hadded.filter hhidden]
    rfl

/-- A run of steady statements leaves the reads of the transaction as they are. -/
theorem steady_run {trace : List (Transition (Server σ) Event)}
    (hrun : Run (ServerStep relOid) s trace t) (h : Sane (fun _ => True) relOid rel s.db)
    (hsteady : ∀ tr ∈ trace, Steady relOid xid tr.source tr.label) :
    (∃ rel', Sane (fun _ => True) relOid rel' t.db) ∧
      readRows relOid xid t = readRows relOid xid s := by
  refine (Run.invariant (fun t => (∃ rel', Sane (fun _ => True) relOid rel' t.db) ∧
    readRows relOid xid t = readRows relOid xid s) (Steady relOid xid) ?_ hrun
    ⟨⟨rel, h⟩, rfl⟩ hsteady).1
  rintro t event t' ⟨⟨rel₁, hsane⟩, hrows⟩ hsteady hstep
  obtain ⟨rel', hsane', hsame⟩ := steady_step hsane hsteady hstep
  exact ⟨⟨rel', hsane'⟩, hsame.trans hrows⟩

omit [LawfulStorage σ] [LawfulBincode] in
theorem run_currentXid {trace : List (Transition (Server σ) Event)} {reader : Nat}
    (hrun : Run (ServerStep relOid) s trace t) (hxid : s.currentXid reader = some xid)
    (hreads : ∀ tr ∈ trace, tr.label.connection = reader → tr.label.statement = .select) :
    t.currentXid reader = some xid :=
  (Run.invariant (fun t => t.currentXid reader = some xid)
    (fun _ event => event.connection = reader → event.statement = .select)
    (fun _ _ _ hxid hselect hstep => serverStep_currentXid hstep hselect hxid) hrun hxid hreads).1

omit [LawfulStorage σ] [LawfulBincode] in
/-- A `SELECT` inside the transaction is steady. -/
theorem steady_select {reader : Nat} {response : Response} (hfit : PagesFit relOid s.db .select)
    (hxid : s.currentXid reader = some xid) : Steady relOid xid s ⟨reader, .select, response⟩ := by
  refine ⟨?_, ?_, fun rel hrel => hfit rfl rel hrel⟩
  · intro y hswitched
    simp only [switchedXid, hxid] at hswitched
    cases hswitched
  · intro values rel hinsert
    cases hinsert

omit [LawfulStorage σ] [LawfulBincode] in
/-- A transaction that begins or ends is steady if it is not below `xid`. -/
theorem steady_of_later (hcontrols : ControlsTransaction event.statement)
    (hlater : ∀ y, switchedXid s event = some y → ¬y.val < xid.val) :
    Steady relOid xid s event := by
  refine ⟨fun y hy hlt => absurd hlt (hlater y hy), ?_, ?_⟩
  · intro values rel hinsert
    rw [hinsert] at hcontrols
    exact hcontrols.elim
  · intro rel _
    cases hstatement : event.statement with
    | begin | commit | rollback => trivial
    | insert | update | delete | select =>
        rw [hstatement] at hcontrols
        exact hcontrols.elim

/-- Two `SELECT`s inside one transaction, of any isolation level, return the same
rows in the same order if all statements between them are steady. -/
theorem repeatable_read {storage : σ} {wal : WAL} (hempty : rel.pages = [])
    {before between : List (Transition (Server σ) Event)} {reader : Nat} {rows rows' : List Row}
    (hbefore : Run (ServerStep rel.relOid) (tableServer storage wal rel) before s)
    (hfit : ∀ tr ∈ before, PagesFit rel.relOid tr.source.db tr.label.statement)
    (hxid : s.currentXid reader = some xid)
    (hselect : ServerStep rel.relOid s ⟨reader, .select, .rows rows⟩ t)
    (hrun : Run (ServerStep rel.relOid) t between u)
    (hselect' : ServerStep rel.relOid u ⟨reader, .select, .rows rows'⟩ u')
    (hreads : ∀ tr ∈ between, tr.label.connection = reader → tr.label.statement = .select)
    (hfirst : PagesFit rel.relOid s.db .select)
    (hsteady : ∀ tr ∈ between, Steady rel.relOid xid tr.source tr.label)
    (hsecond : PagesFit rel.relOid u.db .select) :
    rows'.map Prod.snd = rows.map Prod.snd := by
  obtain ⟨rel₁, hsane, _⟩ := run_sane hbefore (tableServer_sane hempty) hfit
  obtain ⟨rel₂, hsane₂, hsame⟩ := steady_step hsane (steady_select hfirst hxid) hselect
  obtain ⟨⟨rel₃, hsane₃⟩, hsame'⟩ := steady_run hrun hsane₂ hsteady
  have hxid₂ : t.currentXid reader = some xid :=
    serverStep_currentXid hselect (fun _ => rfl) hxid
  rw [select_reads hsane hfirst hxid hselect,
    select_reads hsane₃ hsecond (run_currentXid hrun hxid₂ hreads) hselect', hsame', hsame]

end Reads

section TwoReads

variable {db : Database EphemeralStorage} {rel : Relation} {s : Server EphemeralStorage}
  {connection : Nat} {xid : TransactionId}

/-- A scan of the table with one row, and a later one while no page changes. -/
theorem oneRow_select_twice (h : OneRow db rel) (hdb : s.db = db)
    (hxid : s.currentXid connection = some xid) :
    ∃ db₁, db₁.wal = db.wal ∧ db₁.cache.rels = db.cache.rels ∧
      ServerStep ⟨1⟩ s ⟨connection, .select, .rows (scanRows (pooledPage db.cache.disk)
        rel.tupleDesc (s.txnMgr.getSnapshotForStatement xid) rel.pages)⟩ { s with db := db₁ } ∧
      ∀ u : Server EphemeralStorage, u.db.cache = db₁.cache → u.currentXid connection = some xid →
        ∃ u', ServerStep ⟨1⟩ u ⟨connection, .select, .rows (scanRows (pooledPage db.cache.disk)
          rel.tupleDesc (u.txnMgr.getSnapshotForStatement xid) rel.pages)⟩ u' := by
  subst hdb
  rcases heapScan_sane h.sane h.fits (some (s.txnMgr.getSnapshotForStatement xid)) with
    ⟨_, p, _, _, _, hslot, _⟩ | ⟨disk, hscan, hloaded, _, hfresh, hsane⟩
  · rw [h.unpooled p] at hslot
    cases hslot
  · refine ⟨{ s.db with cache := { s.db.cache with disk := disk } }, rfl, rfl,
      select_step hxid hscan, ?_⟩
    intro u hcache hxid'
    rcases heapScan_sane (hsane.of_cache hcache) h.fits
      (some (u.txnMgr.getSnapshotForStatement xid)) with ⟨_, p, hp, hfull⟩ | ⟨disk', hscan', _⟩
    · rw [hcache] at hfull
      exact absurd hfull (hfresh p hp (h.unpooled p))
    · have hsame : scanRows (pooledPage u.db.cache.disk) rel.tupleDesc
            (u.txnMgr.getSnapshotForStatement xid) rel.pages =
          scanRows (pooledPage s.db.cache.disk) rel.tupleDesc
            (u.txnMgr.getSnapshotForStatement xid) rel.pages := by
        apply scanRows_congr
        intro p _
        rw [pooledPage, pooledPage, hcache, hloaded.pooledRead_eq p]
      rw [Option.getD_some, hsame] at hscan'
      exact ⟨_, select_step hxid' hscan'⟩

/-- The server after `BEGIN` at repeatable read on connection 1. -/
def reading (s : Server EphemeralStorage) : Server EphemeralStorage :=
  { s with
    txnMgr := (s.txnMgr.begin .repeatableRead).2
    currentXid := Function.update s.currentXid 1 (some (s.txnMgr.begin .repeatableRead).1) }

theorem begin_reading (s : Server EphemeralStorage) :
    ServerStep ⟨1⟩ s ⟨1, .begin (some .repeatableRead), .commandComplete "BEGIN"⟩ (reading s) := rfl

/-- Transaction 1 inserts a row while transaction 2 has begun. -/
def writtenBefore (db : Database EphemeralStorage) :
    List (Transition (Server EphemeralStorage) Event) :=
  [⟨freshServer oneTable, ⟨0, .begin none, .commandComplete "BEGIN"⟩, begun oneTable⟩,
    ⟨begun oneTable, ⟨1, .begin (some .repeatableRead), .commandComplete "BEGIN"⟩,
      reading (begun oneTable)⟩,
    ⟨reading (begun oneTable), ⟨0, .insert (["a"].map asBytes), .commandComplete "INSERT 1"⟩,
      reading (begun db)⟩]

theorem run_writtenBefore (h : OneRow db rel) :
    Run (ServerStep emptyTable.relOid)
      (tableServer EphemeralStorage.new (WAL.new 8192) emptyTable) (writtenBefore db)
      (reading (begun db)) := by
  have hwriter : (reading (begun oneTable)).currentXid 0 = some ⟨1⟩ := rfl
  have hinsert : ServerStep ⟨1⟩ (reading (begun oneTable)) _ (reading (begun db)) :=
    h.insert_step rfl hwriter
  exact Run.cons begin_begun (Run.cons (begin_reading _) (Run.cons hinsert (Run.nil _)))

/-- Transaction 1 inserts a row; transaction 2 reads at repeatable read before
and after the commit, and sees the row the second time. -/
theorem second_read_differs :
    ∃ before s t u u' rows rows',
      Run (ServerStep ⟨1⟩) (tableServer EphemeralStorage.new (WAL.new 8192) emptyTable) before s ∧
      before.map (fun tr => (tr.label.connection, tr.label.statement)) =
        [(0, .begin none), (1, .begin (some .repeatableRead)), (0, .insert (["a"].map asBytes))] ∧
      ServerStep ⟨1⟩ s ⟨1, .select, .rows rows⟩ t ∧
      ServerStep ⟨1⟩ t ⟨0, .commit, .commandComplete "COMMIT"⟩ u ∧
      ServerStep ⟨1⟩ u ⟨1, .select, .rows rows'⟩ u' ∧
      (rows'.map Prod.snd : Multiset (List String)) ≠
        (rows.map Prod.snd : Multiset (List String)) := by
  obtain ⟨db, rel, h⟩ := exists_oneRow
  have hreader : (reading (begun db)).currentXid 1 = some ⟨2⟩ := rfl
  obtain ⟨db₁, hwal, _, hfirst, hagain⟩ := oneRow_select_twice h rfl hreader
  have hready : Ready db₁.wal (0 + 1) := by
    rw [hwal]
    exact h.ready
  have hwriter₁ : ({ reading (begun db) with db := db₁ } : Server _).currentXid 0 = some ⟨1⟩ := rfl
  obtain ⟨wal, hcommit⟩ := commit_step hwriter₁ hready
  obtain ⟨u', hsecond⟩ := hagain (finished { reading (begun db) with db := db₁ } 0 ⟨1⟩ wal) rfl rfl
  have huncovered : ¬Covers ⟨⟨2⟩, [⟨2⟩, ⟨1⟩]⟩ 1 := fun hcovers => hcovers.2.1 (by decide)
  have hcovers : Covers ⟨⟨2⟩, [⟨2⟩]⟩ 1 := ⟨by decide, by decide, by decide⟩
  refine ⟨_, _, _, _, u', _, _, run_writtenBefore h, rfl, hfirst, hcommit, hsecond, ?_⟩
  intro heq
  have hmem : ["a"] ∈ ((scanRows (pooledPage db.cache.disk) rel.tupleDesc ⟨⟨2⟩, [⟨2⟩, ⟨1⟩]⟩
      rel.pages).map Prod.snd : Multiset (List String)) := by
    exact heq ▸ Multiset.mem_coe.mpr (h.shows hcovers)
  rw [h.hides huncovered] at hmem
  exact Multiset.notMem_zero _ hmem

/-- The server after a `BEGIN` on connection 2. -/
def accompanied (s : Server EphemeralStorage) : Server EphemeralStorage :=
  { s with
    txnMgr := (s.txnMgr.begin .readCommitted).2
    currentXid := Function.update s.currentXid 2 (some (s.txnMgr.begin .readCommitted).1) }

theorem begin_accompanied (s : Server EphemeralStorage) :
    ServerStep ⟨1⟩ s ⟨2, .begin none, .commandComplete "BEGIN"⟩ (accompanied s) := rfl

theorem repeatable_read_otherCommit :
    ∃ before s t t' u u' rows rows',
      Run (ServerStep ⟨1⟩) (tableServer EphemeralStorage.new (WAL.new 8192) emptyTable) before s ∧
      ServerStep ⟨1⟩ s ⟨1, .select, .rows rows⟩ t ∧
      ServerStep ⟨1⟩ t ⟨2, .begin none, .commandComplete "BEGIN"⟩ t' ∧
      ServerStep ⟨1⟩ t' ⟨2, .commit, .commandComplete "COMMIT"⟩ u ∧
      ServerStep ⟨1⟩ u ⟨1, .select, .rows rows'⟩ u' ∧ rows'.map Prod.snd = rows.map Prod.snd := by
  obtain ⟨db, rel, h⟩ := exists_oneRow
  have hreader : (reading (begun db)).currentXid 1 = some ⟨2⟩ := rfl
  obtain ⟨db₁, hwal, hrels, hfirst, hagain⟩ := oneRow_select_twice h rfl hreader
  have hready : Ready db₁.wal (0 + 1) := by
    rw [hwal]
    exact h.ready
  generalize hscanned : ({ reading (begun db) with db := db₁ } : Server _) = scanned at hfirst
  have hother : (accompanied scanned).currentXid 2 = some ⟨3⟩ := by rw [← hscanned]; rfl
  have hready' : Ready (accompanied scanned).db.wal (0 + 1) := by rw [← hscanned]; exact hready
  obtain ⟨wal, hcommit⟩ := commit_step hother hready'
  obtain ⟨u', hsecond⟩ := hagain (finished (accompanied scanned) 2 ⟨3⟩ wal)
    (by rw [← hscanned]; rfl) (by rw [← hscanned]; rfl)
  refine ⟨_, _, _, _, _, u', _, _, run_writtenBefore h, hfirst, begin_accompanied _, hcommit,
    hsecond, ?_⟩
  have hbetween := Run.cons (begin_accompanied scanned) (Run.cons hcommit (Run.nil _))
  have hlater : ¬(⟨3⟩ : TransactionId).val < (⟨2⟩ : TransactionId).val := by decide
  refine repeatable_read rfl (run_writtenBefore h) ?_ hreader hfirst hbetween hsecond ?_
    (h.pagesFit rfl _) ?_ ?_
  · intro tr htr hselect
    simp only [writtenBefore, List.mem_cons, List.not_mem_nil, or_false] at htr
    rcases htr with rfl | rfl | rfl
    · cases hselect
    · cases hselect
    · cases hselect
  · intro tr htr hconnection
    simp only [List.mem_cons, List.not_mem_nil, or_false] at htr
    rcases htr with rfl | rfl
    · cases hconnection
    · cases hconnection
  · intro tr htr
    simp only [List.mem_cons, List.not_mem_nil, or_false] at htr
    rcases htr with rfl | rfl
    · refine steady_of_later (by trivial) ?_
      intro y hy
      have hnext : switchedXid scanned ⟨2, .begin none, .commandComplete "BEGIN"⟩ = some ⟨3⟩ := by
        rw [← hscanned]
        rfl
      rw [hnext] at hy
      cases hy
      exact hlater
    · refine steady_of_later (by trivial) ?_
      intro y hy
      have hended : switchedXid (accompanied scanned) ⟨2, .commit, .commandComplete "COMMIT"⟩ =
          some ⟨3⟩ := hother
      rw [hended] at hy
      cases hy
      exact hlater
  · intro _ rel' hrel'
    have hsame : (finished (accompanied scanned) 2 ⟨3⟩ wal).db.cache.rels = db.cache.rels := by
      rw [← hscanned]
      exact hrels
    have hrel := h.sane.registered
    rw [← hsame] at hrel
    obtain rfl : rel = rel' := Option.some.inj (hrel.symm.trans hrel')
    exact h.fits

end TwoReads

end PostgressRs.Server.RepeatableReads
