import PostgressRs.Executor.PooledScan
import PostgressRs.Executor.RowVersions
import PostgressRs.Server.HandlerSteps

/-!
Runs of statements on one table: which xids their writes are stamped with, and
what they keep of the rows that a snapshot shows.
-/

namespace PostgressRs.Server.TableRuns

open PostgressRs.BufferCache.PagePool
open PostgressRs.BufferCache.PinnedPool
open PostgressRs.BufferCache.SharedCache
open PostgressRs.Executor.HeapAccess
open PostgressRs.Executor.HeapContents
open PostgressRs.Executor.HeapInvariant
open PostgressRs.Executor.HeapSteps
open PostgressRs.Executor.PooledScan
open PostgressRs.Executor.RowVersions
open PostgressRs.Lib.ByteBuffer
open PostgressRs.Lib.Procedure
open PostgressRs.Lib.Transitions
open PostgressRs.Server.HandlerSteps
open PostgressRs.Server.StatementHandlers
open PostgressRs.Storage.PageRoundTrip
open PostgressRs.Storage.PageStore
open PostgressRs.Storage.SlottedPage
open PostgressRs.Txn.TransactionTable
open PostgressRs.Types
open PostgressRs.Wal.LogRecord
open PostgressRs.Wal.WriteAheadLog

variable [Bincode] {σ : Type} [StorageTrait σ]

section Stamps

/-- How many xids a statement draws from the log's counter. -/
def stampCount (storage : σ) (rel : Relation) : Statement → Nat
  | .insert _ => 1
  | .update value =>
      tupleCount storage (fun page => (tuplesToUpdate page rel.tupleDesc 0 value none).length)
        rel.pages
  | .delete =>
      tupleCount storage (fun page => (matchingTuples page rel.tupleDesc none).length) rel.pages
  | _ => 0

/-- The statement stamps row versions with `x`. -/
def Stamp (relOid : Oid) (db : Database σ) (statement : Statement) (x : UInt64) : Prop :=
  ∃ rel, db.cache.rels.lookup relOid = some rel ∧
    ∃ j < stampCount db.cache.disk.storage rel statement, x = db.wal.currentXid + UInt64.ofNat j

/-- A `SELECT` finds a slot of the pool for each page. -/
def PagesFit (relOid : Oid) (db : Database σ) (statement : Statement) : Prop :=
  statement = .select → ∀ rel, db.cache.rels.lookup relOid = some rel → rel.pages.length ≤ 1024

/-- Pages that the statement writes are in the pool, or it only marks versions as
deleted by xids that the snapshot does not cover; and a `SELECT` finds a slot
for each page. -/
def Harmless (relOid : Oid) (snapshot : Snapshot) (db : Database σ) (statement : Statement) :
    Prop :=
  ∀ rel, db.cache.rels.lookup relOid = some rel →
    match statement with
    | .update value =>
        ∀ p ∈ rel.pages, slotOf db.cache.disk.pool p ≠ none ∨
          ¬UpdatesOn db.cache.disk.storage rel.tupleDesc 0 value none p
    | .delete =>
        (∀ p ∈ rel.pages, slotOf db.cache.disk.pool p ≠ none ∨
          ¬DeletesOn db.cache.disk.storage rel.tupleDesc none p) ∨
        ∀ x, Stamp relOid db .delete x → ¬Covers snapshot x
    | .select => rel.pages.length ≤ 1024
    | _ => True

theorem Harmless.pagesFit {relOid : Oid} {snapshot : Snapshot} {db : Database σ}
    {statement : Statement} (h : Harmless relOid snapshot db statement) :
    PagesFit relOid db statement := by
  rintro rfl rel hrel
  exact h rel hrel

end Stamps

section Frames

variable {snapshot : Snapshot} {relOid : Oid} {db db' : Database σ}

omit [Bincode] [StorageTrait σ] in
theorem PagesFit.of_sameHeap {statement : Statement} (h : PagesFit relOid db statement)
    (hsame : SameHeap db db') : PagesFit relOid db' statement := by
  unfold PagesFit at h ⊢
  rw [hsame.cache_eq]
  exact h

theorem Harmless.of_sameHeap {statement : Statement} (h : Harmless relOid snapshot db statement)
    (hsame : SameHeap db db') : Harmless relOid snapshot db' statement := by
  unfold Harmless Stamp at h ⊢
  rw [hsame.cache_eq, hsame.xid_eq]
  exact h

end Frames

section Effects

variable [LawfulStorage σ] [LawfulBincode] {snapshot view : Snapshot} {relOid : Oid}
  {rel rel' : Relation} {db db' : Database σ} {statement : Statement} {response : Response}

/-- A relation that kept its columns and its pages, and may have gained pages. -/
def Extends (rel rel' : Relation) : Prop :=
  rel'.tupleDesc = rel.tupleDesc ∧ rel.pages ⊆ rel'.pages

omit [Bincode] [StorageTrait σ] [LawfulStorage σ] [LawfulBincode] in
theorem Extends.refl (rel : Relation) : Extends rel rel := ⟨rfl, List.Subset.refl _⟩

omit [Bincode] [StorageTrait σ] [LawfulStorage σ] [LawfulBincode] in
theorem Extends.trans {rel'' : Relation} (h : Extends rel rel') (h' : Extends rel' rel'') :
    Extends rel rel'' :=
  ⟨h'.1.trans h.1, List.Subset.trans h.2 h'.2⟩

/-- Every statement keeps the table sound. -/
theorem effect_sane (h : Sane (fun _ => True) relOid rel db) (hfit : PagesFit relOid db statement)
    (heffect : HeapEffect relOid statement view response db db') :
    ∃ rel', Sane (fun _ => True) relOid rel' db' ∧ Extends rel rel' := by
  cases statement with
  | insert values =>
      obtain ⟨rel', hsane, hdesc, hpages⟩ :=
        h.inserted (P := fun _ => True) trivial (tupleInsert_state heffect.1)
      exact ⟨rel', hsane, hdesc, hpages.subset⟩
  | update value =>
      have hR := tupleUpdate_rewrites h (fun _ _ => stamps_true _) heffect
      exact ⟨rel, h.rewrites hR, Extends.refl rel⟩
  | delete =>
      have hR := (tupleDelete_rewrites (W := fun _ => True) h
        (fun _ _ => ⟨(stamps_true _).1, trivial⟩) heffect).1
      exact ⟨rel, h.rewrites hR, Extends.refl rel⟩
  | select =>
      rcases heapScan_sane h (hfit rfl rel h.registered) (some view) with
        ⟨hpanic, _⟩ | ⟨disk, hok, _, _, _, hsane⟩
      · have hstate := heffect.1
        rw [hpanic] at hstate
        cases hstate
      · have hstate := heffect.1
        rw [hok] at hstate
        cases hstate
        exact ⟨rel, hsane, Extends.refl rel⟩
  | begin | commit | rollback =>
      obtain rfl : db' = db := heffect
      exact ⟨rel, h, Extends.refl rel⟩

omit [LawfulStorage σ] [LawfulBincode] in
/-- A write that spares what is not in the pool keeps every version. -/
theorem versionsKept_of_rewrites {touched : PageId → Prop}
    (hR : Rewrites (fun _ => True) touched db db')
    (hspared : ∀ p ∈ rel.pages, slotOf db.cache.disk.pool p ≠ none ∨ ¬touched p) :
    VersionsKept snapshot rel.pages db db' := by
  apply versionsKept_of_disk hR.pool_eq
  intro p hp hunmapped slot tup hslot
  refine ⟨tup.xmax, Or.inl rfl, ?_⟩
  rw [hR.untouched p ((hspared p hp).resolve_left fun hmapped => hmapped hunmapped)]
  exact hslot

theorem effect_kept (h : Sane (fun _ => True) relOid rel db)
    (hharmless : Harmless relOid snapshot db statement)
    (heffect : HeapEffect relOid statement view response db db') :
    VersionsKept snapshot rel.pages db db' := by
  have hspares := hharmless rel h.registered
  cases statement with
  | insert values =>
      have hins := tupleInsert_state heffect.1
      apply versionsKept_of_disk (inserted_grows h.increasing hins h.registered).1
      intro p hp _ slot tup hslot
      exact ⟨tup.xmax, Or.inl rfl, inserted_slotIn h.increasing h.registered hp hins hslot⟩
  | update value =>
      exact versionsKept_of_rewrites (tupleUpdate_rewrites h (fun _ _ => stamps_true _) heffect)
        hspares
  | delete =>
      rcases hspares with hspared | huncovered
      · exact versionsKept_of_rewrites (tupleDelete_rewrites (W := fun _ => True) h
          (fun _ _ => ⟨(stamps_true _).1, trivial⟩) heffect).1 hspared
      · obtain ⟨hR, hW⟩ := tupleDelete_rewrites (W := fun x => ¬Covers snapshot x) h
          (fun j hj => ⟨(stamps_true _).1, huncovered _ ⟨rel, h.registered, j, hj, rfl⟩⟩) heffect
        apply versionsKept_of_disk hR.pool_eq
        intro p _ _ slot tup hslot
        exact hW p slot tup hslot
  | select =>
      rcases heapScan_sane h hspares (some view) with
        ⟨hpanic, _⟩ | ⟨disk, hok, hloaded, _⟩
      · have hstate := heffect.1
        rw [hpanic] at hstate
        cases hstate
      · have hstate := heffect.1
        rw [hok] at hstate
        cases hstate
        exact versionsKept_of_pooledRead fun p _ => hloaded.pooledRead_eq p
  | begin | commit | rollback =>
      obtain rfl : db' = db := heffect
      exact versionsKept_of_pooledRead fun _ _ => rfl

end Effects

section Runs

variable [LawfulStorage σ] [LawfulBincode] {snapshot : Snapshot} {relOid : Oid}
  {rel rel' : Relation} {s t : Server σ} {trace : List (Transition (Server σ) Event)}

theorem step_sane {event : Event} (h : Sane (fun _ => True) relOid rel s.db)
    (hfit : PagesFit relOid s.db event.statement) (hstep : ServerStep relOid s event t) :
    ∃ rel', Sane (fun _ => True) relOid rel' t.db ∧ Extends rel rel' := by
  obtain ⟨db₁, db₂, hbefore, heffect, hafter⟩ := serverStep_effect hstep
  obtain ⟨rel', hsane, hextends⟩ :=
    effect_sane (h.of_cache hbefore.cache_eq) (hfit.of_sameHeap hbefore) heffect
  exact ⟨rel', hsane.of_cache hafter.cache_eq, hextends⟩

theorem step_kept {event : Event} (h : Sane (fun _ => True) relOid rel s.db)
    (hharmless : Harmless relOid snapshot s.db event.statement)
    (hstep : ServerStep relOid s event t) : VersionsKept snapshot rel.pages s.db t.db := by
  obtain ⟨db₁, db₂, hbefore, heffect, hafter⟩ := serverStep_effect hstep
  have hkept := effect_kept (h.of_cache hbefore.cache_eq) (hharmless.of_sameHeap hbefore) heffect
  exact versionsKept_of_cache hkept hbefore.cache_eq hafter.cache_eq

theorem run_sane (hrun : Run (ServerStep relOid) s trace t)
    (h : Sane (fun _ => True) relOid rel s.db)
    (hfit : ∀ tr ∈ trace, PagesFit relOid tr.source.db tr.label.statement) :
    ∃ rel', Sane (fun _ => True) relOid rel' t.db ∧ Extends rel rel' := by
  induction hrun generalizing rel with
  | nil _ => exact ⟨rel, h, Extends.refl rel⟩
  | cons hstep _ ih =>
      obtain ⟨rel₁, hsane, hextends⟩ := step_sane h (hfit _ List.mem_cons_self) hstep
      obtain ⟨rel', hsane', hextends'⟩ := ih hsane fun tr htr =>
        hfit tr (List.mem_cons_of_mem _ htr)
      exact ⟨rel', hsane', hextends.trans hextends'⟩

/-- In a run of harmless statements every version stays for the snapshot. -/
theorem run_kept (hrun : Run (ServerStep relOid) s trace t)
    (h : Sane (fun _ => True) relOid rel s.db)
    (hharmless : ∀ tr ∈ trace, Harmless relOid snapshot tr.source.db tr.label.statement) :
    ∃ rel', Sane (fun _ => True) relOid rel' t.db ∧ Extends rel rel' ∧
      VersionsKept snapshot rel.pages s.db t.db := by
  induction hrun generalizing rel with
  | nil _ => exact ⟨rel, h, Extends.refl rel, versionsKept_of_pooledRead fun _ _ => rfl⟩
  | cons hstep _ ih =>
      have hfirst := hharmless _ List.mem_cons_self
      obtain ⟨rel₁, hsane, hextends⟩ := step_sane h hfirst.pagesFit hstep
      obtain ⟨rel', hsane', hextends', hkept⟩ := ih hsane fun tr htr =>
        hharmless tr (List.mem_cons_of_mem _ htr)
      exact ⟨rel', hsane', hextends.trans hextends',
        versionsKept_trans (step_kept h hfirst hstep) hextends.2 hkept⟩

omit [LawfulStorage σ] [LawfulBincode] in
/-- A `SELECT` answers with the rows that its snapshot shows of what fetches
find. -/
theorem select_rows {P : Tuple → Prop} {connection : Nat} {rows : List Row}
    (h : Sane P relOid rel s.db) (hfit : PagesFit relOid s.db .select)
    (hstep : ServerStep relOid s ⟨connection, .select, .rows rows⟩ t) :
    rows = scanRows (pooledPage s.db.cache.disk) rel.tupleDesc (statementSnapshot connection s)
      rel.pages := by
  obtain ⟨db₁, db₂, hbefore, heffect, hafter⟩ := serverStep_effect hstep
  have hscan := heffect.2 rows rfl
  rcases heapScan_sane (h.of_cache hbefore.cache_eq) (hfit rfl rel h.registered)
    (some (statementSnapshot connection s)) with ⟨hpanic, _⟩ | ⟨disk, hok, _⟩
  · rw [hpanic] at hscan
    cases hscan
  · rw [hok] at hscan
    cases hscan
    rw [hbefore.cache_eq]
    rfl

end Runs

end PostgressRs.Server.TableRuns
