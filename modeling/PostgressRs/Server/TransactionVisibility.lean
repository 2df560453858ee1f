import PostgressRs.Server.TableRuns

/-!
When a rolled back transaction leaves no trace in later results, and when an
inserted row is in them.  Row versions are stamped from the log's xid counter
and judged by snapshots of the transaction manager's, which is another one.
-/

namespace PostgressRs.Server.TransactionVisibility

open PostgressRs.BufferCache.PagePool
open PostgressRs.BufferCache.PinnedPool
open PostgressRs.BufferCache.SharedCache
open PostgressRs.Executor.HeapAccess
open PostgressRs.Executor.HeapContents
open PostgressRs.Executor.HeapInvariant
open PostgressRs.Executor.HeapSteps
open PostgressRs.Executor.InsertComplete
open PostgressRs.Executor.PooledScan
open PostgressRs.Executor.RelationIsolation
open PostgressRs.Executor.RowVersions
open PostgressRs.Lib.ByteBuffer
open PostgressRs.Lib.Procedure
open PostgressRs.Lib.Transitions
open PostgressRs.Lib.Utf8
open PostgressRs.Server.HandlerSteps
open PostgressRs.Server.StatementHandlers
open PostgressRs.Server.TableRuns
open PostgressRs.Storage.PageRoundTrip
open PostgressRs.Storage.PageStore
open PostgressRs.Storage.SlottedPage
open PostgressRs.Txn.TransactionTable
open PostgressRs.Types
open PostgressRs.Wal.LogRecord
open PostgressRs.Wal.WriteAheadLog

section

variable [Bincode] {σ : Type} [StorageTrait σ]

/-- The server over one table without rows. -/
def tableServer (storage : σ) (wal : WAL) (rel : Relation) : Server σ :=
  freshServer ⟨registerRelation (SharedBufferCache.new storage) rel, wal⟩

/-- Statements that begin or end a transaction. -/
def ControlsTransaction : Statement → Prop
  | .begin _ | .commit | .rollback => True
  | .insert _ | .update _ | .delete | .select => False

/-- A transaction of the connection from `BEGIN` to `ROLLBACK`; `body` are the
statements of all connections in between. -/
structure RolledBack (relOid : Oid) (connection : Nat) (s : Server σ)
    (body : List (Transition (Server σ) Event)) (t : Server σ) : Prop where
  run : ∃ isolation began ended s' t',
    ServerStep relOid s ⟨connection, .begin isolation, began⟩ s' ∧
      Run (ServerStep relOid) s' body t' ∧ ServerStep relOid t' ⟨connection, .rollback, ended⟩ t
  whole : ∀ tr ∈ body, tr.label.connection = connection → ¬ControlsTransaction tr.label.statement

/-- The transaction wrote `x` into row versions. -/
def WroteXid (relOid : Oid) (connection : Nat) (body : List (Transition (Server σ) Event))
    (x : UInt64) : Prop :=
  ∃ tr ∈ body, tr.label.connection = connection ∧ Stamp relOid tr.source.db tr.label.statement x

variable [LawfulStorage σ] [LawfulBincode] {storage : σ} {wal : WAL} {rel : Relation}
  {s t u u' : Server σ} {before body rest : List (Transition (Server σ) Event)}
  {connection reader : Nat} {rows : List Row}

omit [LawfulStorage σ] [LawfulBincode] in
theorem tableServer_sane (hempty : rel.pages = []) :
    Sane (fun _ => True) rel.relOid rel (tableServer storage wal rel).db :=
  sane_registered _ storage wal rel hempty

/-- A row that an `INSERT` put where fetches find it is in the result of a later
`SELECT` whose snapshot covers the xid on the row, unless a statement in between
takes versions from the snapshot. -/
theorem insert_visible {values : List Bytes} (hempty : rel.pages = [])
    (hbefore : Run (ServerStep rel.relOid) (tableServer storage wal rel) before s)
    (hinsert : ServerStep rel.relOid s
      ⟨connection, .insert values, .commandComplete "INSERT 1"⟩ t)
    (hrest : Run (ServerStep rel.relOid) t rest u)
    (hselect : ServerStep rel.relOid u ⟨reader, .select, .rows rows⟩ u')
    (hfit : ∀ tr ∈ before, PagesFit rel.relOid tr.source.db tr.label.statement)
    (hlands : ∀ rel', s.db.cache.rels.lookup rel.relOid = some rel' → Lands s.db rel' values)
    (hcovered : Covers (statementSnapshot reader u) s.db.wal.currentXid)
    (hharmless : ∀ tr ∈ rest,
      Harmless rel.relOid (statementSnapshot reader u) tr.source.db tr.label.statement)
    (hfits : PagesFit rel.relOid u.db .select) :
    ∃ pointer, (pointer,
      decodeTupleValues (newTuple values s.db.wal.currentXid) rel.tupleDesc) ∈ rows := by
  obtain ⟨rel₁, hsane₁, hextends₁⟩ := run_sane hbefore (tableServer_sane hempty) hfit
  obtain ⟨rel₂, hsane₂, hextends₂⟩ := step_sane hsane₁ (fun h => by cases h) hinsert
  obtain ⟨rel₃, hsane₃, hextends₃, hkept⟩ := run_kept hrest hsane₂ hharmless
  have hdesc₂ : rel₂.tupleDesc = rel.tupleDesc := (hextends₁.trans hextends₂).1
  obtain ⟨db₁, db₂, hsame, heffect, hsame'⟩ := serverStep_effect hinsert
  have hlands₁ : Lands db₁ rel₁ values := by
    unfold Lands PageFull
    rw [hsame.cache_eq, hsame.xid_eq]
    exact hlands rel₁ hsane₁.registered
  obtain ⟨rel', p, slot, hrel', hp, hslot⟩ :=
    tupleInsert_lands (hsane₁.of_cache hsame.cache_eq) (heffect.2 rfl) hlands₁
  rw [← hsame'.cache_eq] at hrel' hslot
  obtain rfl : rel' = rel₂ := Option.some.inj (hrel'.symm.trans hsane₂.registered)
  rw [hsame.xid_eq] at hslot
  have hvisible : isVisible (newTuple values s.db.wal.currentXid) (statementSnapshot reader u) =
      true := by
    refine (isVisible_iff _ _).mpr ⟨hcovered, ?_⟩
    rintro ⟨hzero, _⟩
    exact hzero rfl
  have hrow := scanRow_of_slotIn hp hslot hvisible
  have hmem := hkept.scanRows_subset hsane₂ hextends₃.1 hextends₃.2 hrow
  rw [← select_rows hsane₃ hfits hselect] at hmem
  refine ⟨⟨p, UInt16.ofNat slot⟩, ?_⟩
  rw [← hdesc₂]
  exact hmem

end

section OneTable

/-- What an insert of "a" into the empty table leaves. -/
structure OneRow (db : Database EphemeralStorage) (rel : Relation) : Prop where
  inserted : tupleInsert ⟨1⟩ (["a"].map asBytes) oneTable = .ok () db
  ready : Ready db.wal 1
  unpooled : ∀ p, slotOf db.cache.disk.pool p = none
  sane : Sane (fun tup => tup.xmin = 1) ⟨1⟩ rel db
  desc_eq : rel.tupleDesc = textColumn
  fits : rel.pages.length ≤ 1024

theorem nulFree_a : NulFree ["a"] := by
  intro value hvalue
  rw [List.mem_singleton.mp hvalue, asBytes_a]
  decide

theorem oneTable_lands : Lands oneTable emptyTable (["a"].map asBytes) := by
  refine ⟨Or.inl (slotOf_new 1024 _), fun _ => ?_⟩
  have hshort : (asBytes "a").length ≤ 8112 := by
    rw [asBytes_a, List.length_singleton]
    omega
  obtain ⟨encoded, hencoded, hlen⟩ := serialize_oneValue hshort oneTable.wal.currentXid
  rw [asBytes_a, List.length_singleton] at hlen
  exact ⟨encoded, _, _, hencoded, addTuple_empty allNormal_new rfl rfl (by omega)⟩

theorem exists_oneRow : ∃ db rel, OneRow db rel := by
  have hrel : oneTable.cache.rels.lookup ⟨1⟩ = some emptyTable := rfl
  have hwal : Ready oneTable.wal (1 + 1) := ready_new (by decide) (by decide)
  obtain ⟨db, encoded, hinsert, hfilled, -, hready, -⟩ :=
    first_insert hrel rfl rfl asBytes_a (by decide) (by decide) (by decide) hwal
  have hstate : (tupleInsert ⟨1⟩ (["a"].map asBytes) oneTable).state? = some db := by
    rw [hinsert]
    rfl
  have hsane : Sane (fun tup => tup.xmin = 1) ⟨1⟩ emptyTable oneTable :=
    sane_registered _ EphemeralStorage.new (WAL.new 8192) emptyTable rfl
  obtain ⟨rel, hsane', hdesc, -⟩ := hsane.inserted (by rfl) (tupleInsert_state hstate)
  refine ⟨db, rel, hinsert, hready, ?_, hsane', hdesc, ?_⟩
  · intro p
    rw [(inserted_grows hsane.increasing (tupleInsert_state hstate) hrel).1]
    exact slotOf_new 1024 p
  · rw [hfilled.pages_eq hsane'.registered]
    exact Nat.le_of_ble_eq_true rfl

section

variable {db : Database EphemeralStorage} {rel : Relation} {s : Server EphemeralStorage}
  {connection : Nat} {xid : TransactionId}

theorem OneRow.insert_step (h : OneRow db rel) (hdb : s.db = oneTable)
    (hxid : s.currentXid connection = some xid) :
    ServerStep ⟨1⟩ s ⟨connection, .insert (["a"].map asBytes), .commandComplete "INSERT 1"⟩
      { s with db := db } := by
  apply HandlerSteps.insert_step hxid
  rw [hdb]
  exact h.inserted

theorem OneRow.pagesFit (h : OneRow db rel) (hcache : s.db.cache = db.cache)
    (statement : Statement) : PagesFit ⟨1⟩ s.db statement := by
  intro _ rel' hrel'
  rw [hcache, h.sane.registered] at hrel'
  cases hrel'
  exact h.fits

theorem OneRow.select (h : OneRow db rel) (hcache : s.db.cache = db.cache)
    (hxid : s.currentXid connection = some xid) :
    ∃ s', ServerStep ⟨1⟩ s ⟨connection, .select, .rows (scanRows (pooledPage db.cache.disk)
      rel.tupleDesc (s.txnMgr.getSnapshotForStatement xid) rel.pages)⟩ s' := by
  rcases heapScan_sane (h.sane.of_cache hcache) h.fits
    (some (s.txnMgr.getSnapshotForStatement xid)) with
    ⟨_, p, _, _, _, hslot, _⟩ | ⟨disk, hscan, _⟩
  · rw [hcache, h.unpooled p] at hslot
    cases hslot
  · rw [Option.getD_some, hcache] at hscan
    exact ⟨_, select_step hxid hscan⟩

/-- A snapshot that covers xid 1 shows the row. -/
theorem OneRow.shows (h : OneRow db rel) {snapshot : Snapshot} (hcovers : Covers snapshot 1) :
    ["a"] ∈ (scanRows (pooledPage db.cache.disk) rel.tupleDesc snapshot rel.pages).map
      Prod.snd := by
  have hsane : Sane (fun _ => True) ⟨1⟩ emptyTable oneTable :=
    sane_registered _ EphemeralStorage.new (WAL.new 8192) emptyTable rfl
  obtain ⟨rel', p, slot, hrel', hp, hslot⟩ := tupleInsert_lands hsane h.inserted oneTable_lands
  rw [h.sane.registered] at hrel'
  cases hrel'
  have hvisible : isVisible (newTuple (["a"].map asBytes) oneTable.wal.currentXid) snapshot =
      true := by
    refine (isVisible_iff _ _).mpr ⟨hcovers, ?_⟩
    rintro ⟨hzero, _⟩
    exact hzero rfl
  refine List.mem_map.mpr ⟨_, scanRow_of_slotIn hp hslot hvisible, ?_⟩
  rw [rowOf, h.desc_eq, decodeTupleValues_newTuple textColumn ["a"] nulFree_a]
  rfl

/-- A snapshot that does not cover xid 1 shows nothing. -/
theorem OneRow.hides (h : OneRow db rel) {snapshot : Snapshot} (huncovered : ¬Covers snapshot 1) :
    scanRows (pooledPage db.cache.disk) rel.tupleDesc snapshot rel.pages = [] := by
  rw [List.eq_nil_iff_forall_not_mem]
  intro row hrow
  obtain ⟨p, slot, tup, _, _, hxmin, hvisible, _⟩ := slotIn_of_scanRow h.sane hrow
  have hcovers := ((isVisible_iff tup snapshot).mp hvisible).1
  rw [hxmin] at hcovers
  exact huncovered hcovers

end

/-- The server after the end of a connection's transaction. -/
def finished (s : Server EphemeralStorage) (connection : Nat) (xid : TransactionId) (wal : WAL) :
    Server EphemeralStorage where
  db := { s.db with wal := wal }
  txnMgr := (s.txnMgr.finish xid).2
  currentXid := Function.update s.currentXid connection none

theorem rollback_step {s : Server EphemeralStorage} {connection count : Nat}
    {xid : TransactionId} (hxid : s.currentXid connection = some xid)
    (hwal : Ready s.db.wal (count + 1)) :
    ∃ wal, ServerStep ⟨1⟩ s ⟨connection, .rollback, .commandComplete "ROLLBACK"⟩
      (finished s connection xid wal) := by
  have hsize : (encodeRecord (.abort xid.val.toUInt64)).length ≤ 8192 := by
    simp [encodeRecord]
  obtain ⟨wal, hstep, -⟩ :=
    finishStatement_ok (fun xid => .abort xid.val.toUInt64) "ROLLBACK" hxid hwal rfl hsize
  exact ⟨wal, hstep⟩

theorem commit_step {s : Server EphemeralStorage} {connection count : Nat}
    {xid : TransactionId} (hxid : s.currentXid connection = some xid)
    (hwal : Ready s.db.wal (count + 1)) :
    ∃ wal, ServerStep ⟨1⟩ s ⟨connection, .commit, .commandComplete "COMMIT"⟩
      (finished s connection xid wal) := by
  have hsize : (encodeRecord (.commit xid.val.toUInt64)).length ≤ 8192 := by
    simp [encodeRecord]
  obtain ⟨wal, hstep, -⟩ :=
    finishStatement_ok (fun xid => .commit xid.val.toUInt64) "COMMIT" hxid hwal rfl hsize
  exact ⟨wal, hstep⟩

/-- The server after `BEGIN` on connection 0. -/
def begun (db : Database EphemeralStorage) : Server EphemeralStorage where
  db := db
  txnMgr := (TransactionManager.new.begin .readCommitted).2
  currentXid := Function.update (fun _ => none) 0 (some ⟨1⟩)

theorem begin_begun : ServerStep ⟨1⟩ (freshServer oneTable)
    ⟨0, .begin none, .commandComplete "BEGIN"⟩ (begun oneTable) := rfl

theorem run_begun : Run (ServerStep emptyTable.relOid)
    (tableServer EphemeralStorage.new (WAL.new 8192) emptyTable)
    [⟨freshServer oneTable, ⟨0, .begin none, .commandComplete "BEGIN"⟩, begun oneTable⟩]
    (begun oneTable) :=
  Run.cons begin_begun (Run.nil _)

/-- The server after a further `BEGIN` on connection 1. -/
def joined (s : Server EphemeralStorage) : Server EphemeralStorage :=
  { s with
    txnMgr := (s.txnMgr.begin .readCommitted).2
    currentXid := Function.update s.currentXid 1 (some (s.txnMgr.begin .readCommitted).1) }

theorem begin_joined (s : Server EphemeralStorage) :
    ServerStep ⟨1⟩ s ⟨1, .begin none, .commandComplete "BEGIN"⟩ (joined s) := rfl

/-- A transaction does not see the row it inserted. -/
theorem own_row_not_selected :
    ∃ s s' rows, ServerStep ⟨1⟩ (begun oneTable)
        ⟨0, .insert (["a"].map asBytes), .commandComplete "INSERT 1"⟩ s ∧
      ServerStep ⟨1⟩ s ⟨0, .select, .rows rows⟩ s' ∧ rows = [] := by
  obtain ⟨db, rel, h⟩ := exists_oneRow
  have hxid : (begun db).currentXid 0 = some ⟨1⟩ := rfl
  obtain ⟨s', hselect⟩ := h.select rfl hxid
  have hinsert : ServerStep ⟨1⟩ (begun oneTable) _ (begun db) := h.insert_step rfl hxid
  have huncovered : ¬Covers ⟨⟨1⟩, [⟨1⟩]⟩ 1 := fun hcovers => hcovers.2.1 (by decide)
  exact ⟨_, s', _, hinsert, hselect, h.hides huncovered⟩

theorem insert_visible_oneCommit :
    ∃ s t u u' rows, ServerStep ⟨1⟩ (begun oneTable)
        ⟨0, .insert (["a"].map asBytes), .commandComplete "INSERT 1"⟩ s ∧
      ServerStep ⟨1⟩ s ⟨0, .commit, .commandComplete "COMMIT"⟩ t ∧
      ServerStep ⟨1⟩ t ⟨1, .begin none, .commandComplete "BEGIN"⟩ u ∧
      ServerStep ⟨1⟩ u ⟨1, .select, .rows rows⟩ u' ∧
      ∃ pointer,
        (pointer, decodeTupleValues (newTuple (["a"].map asBytes) 1) textColumn) ∈ rows := by
  obtain ⟨db, rel, h⟩ := exists_oneRow
  have hxid : (begun db).currentXid 0 = some ⟨1⟩ := rfl
  have hinsert : ServerStep ⟨1⟩ (begun oneTable) _ (begun db) := h.insert_step rfl hxid
  obtain ⟨wal, hcommit⟩ := commit_step hxid h.ready
  have hreader : (joined (finished (begun db) 0 ⟨1⟩ wal)).currentXid 1 = some ⟨2⟩ := rfl
  obtain ⟨u', hselect⟩ := h.select rfl hreader
  have hcovers : Covers ⟨⟨2⟩, [⟨2⟩]⟩ 1 := ⟨by decide, by decide, by decide⟩
  have hrest := Run.cons hcommit (Run.cons (begin_joined (finished (begun db) 0 ⟨1⟩ wal))
    (Run.nil _))
  refine ⟨_, _, _, u', _, hinsert, hcommit, begin_joined _, hselect, ?_⟩
  refine insert_visible rfl run_begun hinsert hrest hselect ?_ ?_ hcovers ?_ ?_
  · intro tr htr hstatement
    rw [List.mem_singleton.mp htr] at hstatement
    cases hstatement
  · intro rel' hrel'
    have hrel : oneTable.cache.rels.lookup ⟨1⟩ = some emptyTable := rfl
    obtain rfl : emptyTable = rel' := Option.some.inj (hrel.symm.trans hrel')
    exact oneTable_lands
  · intro tr htr rel' _
    rcases List.mem_cons.mp htr with rfl | htr
    · trivial
    · rw [List.mem_singleton.mp htr]
      trivial
  · exact h.pagesFit rfl _

end OneTable

end PostgressRs.Server.TransactionVisibility
