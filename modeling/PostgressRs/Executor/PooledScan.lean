import PostgressRs.Executor.HeapInvariant
import PostgressRs.Executor.RelationIsolation

/-!
Runs of heap operations on one relation: when the scan through the pool and the
scan of storage agree.
-/

namespace PostgressRs.Executor.PooledScan

open PostgressRs.BufferCache.PagePool
open PostgressRs.BufferCache.PinnedPool
open PostgressRs.BufferCache.SharedCache
open PostgressRs.Executor.HeapAccess
open PostgressRs.Executor.HeapContents
open PostgressRs.Executor.HeapInvariant
open PostgressRs.Executor.HeapSteps
open PostgressRs.Executor.InsertComplete
open PostgressRs.Executor.RelationIsolation
open PostgressRs.Lib.ByteBuffer
open PostgressRs.Lib.Procedure
open PostgressRs.Lib.Transitions
open PostgressRs.Lib.Utf8
open PostgressRs.Storage.PageRoundTrip
open PostgressRs.Storage.PageStore
open PostgressRs.Storage.SlottedPage
open PostgressRs.Txn.TransactionTable
open PostgressRs.Types
open PostgressRs.Wal.LogRecord
open PostgressRs.Wal.WriteAheadLog

section

variable [Bincode] {σ : Type} [StorageTrait σ]

inductive HeapOp where
  | tupleInsert (values : List Bytes)
  | tupleUpdate (columnIdx : Nat) (newValue : Bytes) (filter : Option Filter)
  | tupleDelete (filter : Option Filter)
  | vacuumRelation (oldestXmin : UInt32)
  | heapScan

/-- One call on the relation that does not panic. -/
def HeapStep (relOid : Oid) (db : Database σ) (op : HeapOp) (db' : Database σ) : Prop :=
  match op with
  | .tupleInsert values => (tupleInsert relOid values db).state? = some db'
  | .tupleUpdate columnIdx newValue filter =>
      (tupleUpdate relOid columnIdx newValue filter db).state? = some db'
  | .tupleDelete filter => (tupleDelete relOid filter db).state? = some db'
  | .vacuumRelation oldestXmin => (vacuumRelation relOid oldestXmin db).state? = some db'
  | .heapScan => (heapScan relOid db).state? = some db'

/-- The call puts no tuple on, and replaces none on, a page that is in the pool,
and a scan finds a slot for each page. -/
def SparesPool (relOid : Oid) (db : Database σ) (op : HeapOp) : Prop :=
  ∀ rel, db.cache.rels.lookup relOid = some rel →
    match op with
    | .tupleInsert values =>
        slotOf db.cache.disk.pool (openPage rel) = none ∨ PageFull db rel values
    | .tupleUpdate columnIdx newValue filter =>
        ∀ p ∈ rel.pages, slotOf db.cache.disk.pool p = none ∨
          ¬UpdatesOn db.cache.disk.storage rel.tupleDesc columnIdx newValue filter p
    | .tupleDelete filter =>
        ∀ p ∈ rel.pages, slotOf db.cache.disk.pool p = none ∨
          ¬DeletesOn db.cache.disk.storage rel.tupleDesc filter p
    | .vacuumRelation _ => True
    | .heapScan => rel.pages.length ≤ 1024

/-- What a fetch of a page finds has the tuples that are on disk. -/
def Agrees (db : Database σ) (p : PageId) : Prop :=
  (pooledPage db.cache.disk p).map HeapPage.tuples =
    (pageOf db.cache.disk.storage p).map HeapPage.tuples

/-- The relation's pages are sound and none of them is stale in the pool. -/
structure Fresh (relOid : Oid) (db : Database σ) : Prop where
  sane : ∃ rel, Sane (fun _ => True) relOid rel db ∧ ∀ p ∈ rel.pages, Agrees db p

variable {relOid : Oid} {rel rel' : Relation} {db db' : Database σ}

omit [Bincode] in
theorem agrees_of_unmapped {p : PageId} (h : slotOf db.cache.disk.pool p = none) :
    Agrees db p := by
  rw [Agrees, pooledPage_of_unmapped h]

omit [Bincode] in
theorem agrees_of_kept {p : PageId} (hpool : db'.cache.disk.pool = db.cache.disk.pool)
    (htuples : slotOf db.cache.disk.pool p ≠ none →
      (pageOf db'.cache.disk.storage p).map HeapPage.tuples =
        (pageOf db.cache.disk.storage p).map HeapPage.tuples)
    (h : slotOf db.cache.disk.pool p ≠ none → Agrees db p) : Agrees db' p := by
  by_cases hslot : slotOf db.cache.disk.pool p = none
  · apply agrees_of_unmapped
    rw [hpool]
    exact hslot
  · rw [Agrees, pooledPage_of_mapped hpool hslot, htuples hslot]
    exact h hslot

theorem fresh_rewrites {touched : PageId → Prop} (h : Sane (fun _ => True) relOid rel db)
    (hagrees : ∀ p ∈ rel.pages, Agrees db p) (hR : Rewrites (fun _ => True) touched db db')
    (hspared : ∀ p ∈ rel.pages, slotOf db.cache.disk.pool p = none ∨ ¬touched p) :
    Fresh relOid db' := by
  refine ⟨rel, h.rewrites hR, ?_⟩
  intro p hp
  apply agrees_of_kept hR.pool_eq
  · intro hslot
    rcases hspared p hp with hnone | huntouched
    · exact absurd hnone hslot
    · rw [pageOf, pageOf, hR.untouched p huntouched]
  · exact fun _ => hagrees p hp

variable [LawfulStorage σ] [LawfulBincode]

theorem fresh_insert {values : List Bytes} (h : Sane (fun _ => True) relOid rel db)
    (hagrees : ∀ p ∈ rel.pages, Agrees db p)
    (hspared : slotOf db.cache.disk.pool (openPage rel) = none ∨ PageFull db rel values)
    (hstep : (tupleInsert relOid values db).state? = some db') : Fresh relOid db' := by
  have hins := tupleInsert_state hstep
  obtain ⟨hpool, _⟩ := inserted_grows h.increasing hins h.registered
  obtain ⟨rel', hsane', _, _⟩ := h.inserted (P := fun _ => True) trivial hins
  refine ⟨rel', hsane', ?_⟩
  intro p _
  apply agrees_of_kept hpool
  · intro hslot
    apply inserted_tuples h hins (h.mem_of_mapped hslot)
    rintro rfl
    exact hspared.resolve_left hslot
  · exact fun hslot => hagrees p (h.mem_of_mapped hslot)

theorem fresh_step {op : HeapOp} (hfresh : Fresh relOid db) (hspares : SparesPool relOid db op)
    (hstep : HeapStep relOid db op db') : Fresh relOid db' := by
  obtain ⟨rel, h, hagrees⟩ := hfresh.sane
  have hspares := hspares rel h.registered
  cases op with
  | tupleInsert values => exact fresh_insert h hagrees hspares hstep
  | tupleUpdate columnIdx newValue filter =>
      exact fresh_rewrites h hagrees
        (tupleUpdate_rewrites h (fun _ _ => stamps_true _) hstep) hspares
  | tupleDelete filter =>
      exact fresh_rewrites h hagrees
        (tupleDelete_rewrites (W := fun _ => True) h
          (fun _ _ => ⟨(stamps_true _).1, trivial⟩) hstep).1 hspares
  | vacuumRelation oldestXmin =>
      have hV := vacuumRelation_vacuumed h hstep
      refine ⟨rel, h.vacuumed hV, ?_⟩
      intro p hp
      rcases hV.fresh p with hnone | ⟨hslot, hread⟩
      · exact agrees_of_unmapped hnone
      · have hagree := hagrees p hp
        unfold Agrees pooledPage pageOf pooledRead at hagree ⊢
        rw [hslot, hread]
        exact hagree
  | heapScan =>
      have hscan : (heapScanWithOptionalSnapshot relOid none db).state? = some db' := hstep
      rcases heapScan_sane h hspares none with ⟨hpanic, _⟩ | ⟨disk, hok, hloaded, _, _, hsane⟩
      · rw [hpanic] at hscan
        cases hscan
      · rw [hok] at hscan
        cases hscan
        refine ⟨rel, hsane, ?_⟩
        intro p hp
        have hagree := hagrees p hp
        unfold Agrees pooledPage pageOf at hagree ⊢
        simp only [hloaded.pooledRead_eq, hloaded.storage_eq]
        exact hagree

omit [LawfulStorage σ] [LawfulBincode] in
theorem fresh_scans_agree (hfresh : Fresh relOid db)
    (hsize : ∀ rel, db.cache.rels.lookup relOid = some rel → rel.pages.length ≤ 1024)
    (hcounts : ∀ p, ¬Saturated db.cache.disk.pool p) :
    ∃ rows db', heapScan relOid db = .ok rows db' ∧ slowScan relOid none db = .ok rows db := by
  obtain ⟨rel, h, hagrees⟩ := hfresh.sane
  rcases heapScan_sane h (hsize rel h.registered) none with
    ⟨_, p, _, hsat⟩ | ⟨disk, hok, _⟩
  · exact absurd hsat (hcounts p)
  · refine ⟨_, _, hok, ?_⟩
    rw [slowScan_sane h, Option.getD_none, scanRows_congr rel.tupleDesc maxSnapshot hagrees]

omit [LawfulStorage σ] [LawfulBincode] in
theorem sane_registered (P : Tuple → Prop) (storage : σ) (wal : WAL) (rel : Relation)
    (hempty : rel.pages = []) :
    Sane P rel.relOid rel
      ⟨registerRelation (SharedBufferCache.new storage) rel, wal⟩ := by
  have hregister : registerRelation (SharedBufferCache.new storage) rel =
      { SharedBufferCache.new storage with rels := AList.insert rel.relOid rel ∅ } := by
    simp [registerRelation, SharedBufferCache.new]
  rw [hregister]
  refine ⟨AList.lookup_insert _, ?_, ?_, ?_, pinned_new (by decide) _, rfl⟩
  · rw [hempty]
    exact List.Pairwise.nil
  · rw [hempty]
    simp
  · rw [hempty]
    simp

/-- In a run of calls that put no tuple on, and replace none on, a page that is
in the pool, a scan through the pool returns what a scan of storage returns. -/
theorem run_scans_agree {storage : σ} {wal : WAL} {rel : Relation} (hempty : rel.pages = [])
    {trace : List (Transition (Database σ) HeapOp)}
    (hrun : Run (HeapStep rel.relOid)
      ⟨registerRelation (SharedBufferCache.new storage) rel, wal⟩ trace db)
    (hspares : ∀ tr ∈ trace, SparesPool rel.relOid tr.source tr.label)
    (hsize : ∀ rel', db.cache.rels.lookup rel.relOid = some rel' → rel'.pages.length ≤ 1024)
    (hcounts : ∀ p, ¬Saturated db.cache.disk.pool p) :
    ∃ rows db', heapScan rel.relOid db = .ok rows db' ∧
      slowScan rel.relOid none db = .ok rows db := by
  have hinit : Fresh rel.relOid
      (⟨registerRelation (SharedBufferCache.new storage) rel, wal⟩ : Database σ) := by
    refine ⟨rel, sane_registered _ storage wal rel hempty, ?_⟩
    rw [hempty]
    simp
  have hfresh := (Run.invariant (Fresh rel.relOid) (SparesPool rel.relOid)
    (fun _ _ _ hs hg h => fresh_step hs hg h) hrun hinit hspares).1
  exact fresh_scans_agree hfresh hsize hcounts

end

section OneTable

theorem slotOf_new (poolSize : Nat) (p : PageId) : slotOf (BufferPool.new poolSize) p = none := by
  simp [slotOf, BufferPool.new]

def oneTable : Database EphemeralStorage := freshDatabase [emptyTable]

theorem run_scans_agree_oneInsert :
    ∃ db rows db', HeapStep ⟨1⟩ oneTable (.tupleInsert (["a"].map asBytes)) db ∧
      heapScan ⟨1⟩ db = .ok rows db' ∧ slowScan ⟨1⟩ none db = .ok rows db := by
  have hrel : oneTable.cache.rels.lookup ⟨1⟩ = some emptyTable := rfl
  have hwal : Ready oneTable.wal (0 + 1) := ready_new (by decide) (by decide)
  obtain ⟨db, _, hinsert, hfilled, _⟩ :=
    first_insert hrel rfl rfl asBytes_a (by decide) (by decide) (by decide) hwal
  have hstep : HeapStep ⟨1⟩ oneTable (.tupleInsert (["a"].map asBytes)) db := by
    change (tupleInsert ⟨1⟩ (["a"].map asBytes) oneTable).state? = some db
    rw [hinsert]
    rfl
  have hpool : db.cache.disk.pool = BufferPool.new 1024 :=
    (inserted_grows List.Pairwise.nil (tupleInsert_state hstep) hrel).1
  have hrun : Run (HeapStep emptyTable.relOid) oneTable
      [⟨oneTable, .tupleInsert (["a"].map asBytes), db⟩] db := Run.cons hstep (Run.nil db)
  have hempty : emptyTable.pages = [] := rfl
  suffices hagree : ∃ rows db', heapScan emptyTable.relOid db = .ok rows db' ∧
      slowScan emptyTable.relOid none db = .ok rows db by
    obtain ⟨rows, db', hscan, hslow⟩ := hagree
    exact ⟨db, rows, db', hstep, hscan, hslow⟩
  refine run_scans_agree hempty hrun ?_ ?_ ?_
  · intro tr htr rel _
    rw [List.mem_singleton.mp htr]
    exact Or.inl (slotOf_new 1024 (openPage rel))
  · intro rel' hrel'
    obtain ⟨rel, hrel, _, hpages⟩ := hfilled.registered
    have heq : rel = rel' := Option.some.inj (hrel.symm.trans hrel')
    rw [← heq, hpages]
    exact Nat.le_of_ble_eq_true rfl
  · rintro p ⟨i, buf, hslot, _⟩
    rw [hpool, slotOf_new] at hslot
    cases hslot

/-- A row inserted into a page that a scan has brought into the pool is on disk
but not in the next scan's result. -/
theorem scanned_page_hides_insert :
    ∃ db₁ db₂ db₃ db₄ pooled direct,
      HeapStep ⟨1⟩ oneTable (.tupleInsert (["a"].map asBytes)) db₁ ∧
      HeapStep ⟨1⟩ db₁ .heapScan db₂ ∧
      HeapStep ⟨1⟩ db₂ (.tupleInsert (["b"].map asBytes)) db₃ ∧
      heapScan ⟨1⟩ db₃ = .ok pooled db₄ ∧ pooled.map Prod.snd = [["a"]] ∧
      slowScan ⟨1⟩ none db₃ = .ok direct db₃ ∧ direct.map Prod.snd = [["a"], ["b"]] := by
  have hrel : oneTable.cache.rels.lookup ⟨1⟩ = some emptyTable := rfl
  have hwal : Ready oneTable.wal (1 + 1) := ready_new (by decide) (by decide)
  obtain ⟨db₁, encoded, hinsert₁, hfilled₁, hlen, hready₁, hxid₁⟩ :=
    first_insert hrel rfl rfl asBytes_a (by decide) (by decide) (by decide) hwal
  have hstep₁ : HeapStep ⟨1⟩ oneTable (.tupleInsert (["a"].map asBytes)) db₁ := by
    change (tupleInsert ⟨1⟩ (["a"].map asBytes) oneTable).state? = some db₁
    rw [hinsert₁]
    rfl
  have hsane₀ : Sane (fun _ => True) ⟨1⟩ emptyTable oneTable :=
    sane_registered _ EphemeralStorage.new (WAL.new 8192) emptyTable rfl
  obtain ⟨hpool₁, _⟩ := inserted_grows hsane₀.increasing (tupleInsert_state hstep₁) hrel
  have hnone₁ : ∀ p, slotOf db₁.cache.disk.pool p = none := by
    intro p
    rw [hpool₁]
    exact slotOf_new 1024 p
  obtain ⟨rel₁, hsane₁, _⟩ :=
    hsane₀.inserted (P := fun _ => True) trivial (tupleInsert_state hstep₁)
  have hpages₁ := hfilled₁.pages_eq hsane₁.registered
  have hsize : rel₁.pages.length ≤ 1024 := by
    rw [hpages₁]
    exact Nat.le_of_ble_eq_true rfl
  -- the first scan brings page 1 into the pool
  rcases heapScan_sane hsane₁ hsize none with
    ⟨_, p, _, _, _, hslot, _⟩ | ⟨disk, hscan₂, hloaded, hmapped, hunsat, hsane₂⟩
  · rw [hnone₁ p] at hslot
    cases hslot
  set db₂ : Database EphemeralStorage := { db₁ with cache := { db₁.cache with disk := disk } }
    with hdb₂
  have hfilled₂ : Filled db₂ ⟨1⟩ textColumn [["a"]] [appended (stored HeapPage.new) encoded] :=
    hfilled₁.of_storage rfl hloaded.storage_eq
  -- the second insert writes page 1 on disk only
  have hxid₂ : db₂.wal.currentXid.toNat = 2 := by
    change db₁.wal.currentXid.toNat = 2
    rw [hxid₁]
    rfl
  obtain ⟨db₃, page, hinsert₃, hfilled₃⟩ := second_insert hfilled₂ hlen (by decide) asBytes_b
    (by decide) (by omega) (by omega) hready₁
  have hstep₃ : HeapStep ⟨1⟩ db₂ (.tupleInsert (["b"].map asBytes)) db₃ := by
    change (tupleInsert ⟨1⟩ (["b"].map asBytes) db₂).state? = some db₃
    rw [hinsert₃]
    rfl
  obtain ⟨hpool₃, _⟩ :=
    inserted_grows hsane₂.increasing (tupleInsert_state hstep₃) hsane₂.registered
  obtain ⟨rel₃, hsane₃, hdesc₃, _⟩ :=
    hsane₂.inserted (P := fun _ => True) trivial (tupleInsert_state hstep₃)
  have hpages₃ : rel₃.pages = rel₁.pages := (hfilled₃.pages_eq hsane₃.registered).trans hpages₁.symm
  have hsame : ∀ p ∈ rel₁.pages, pooledPage db₃.cache.disk p = pageOf db₁.cache.disk.storage p := by
    intro p hp
    calc
      _ = pooledPage db₂.cache.disk p := pooledPage_of_mapped hpool₃ (hmapped p hp)
      _ = pooledPage db₁.cache.disk p := congrArg decoded (hloaded.pooledRead_eq p)
      _ = pageOf db₁.cache.disk.storage p := pooledPage_of_unmapped (hnone₁ p)
  rcases heapScan_sane hsane₃ (by rw [hpages₃]; exact hsize) none with
    ⟨_, p, hp, hsat⟩ | ⟨disk', hscan₄, _⟩
  · rw [hpool₃] at hsat
    exact absurd hsat (hunsat p (hpages₃ ▸ hp) (hnone₁ p))
  obtain ⟨rows, hrows, hresult⟩ := hfilled₁.slowScan
  obtain ⟨direct, hdirect, hboth⟩ := hfilled₃.slowScan
  rw [slowScan_sane hsane₁] at hrows
  cases hrows
  have hpooled : scanRows (pooledPage db₃.cache.disk) rel₃.tupleDesc maxSnapshot rel₃.pages =
      scanRows (pageOf db₁.cache.disk.storage) rel₁.tupleDesc maxSnapshot rel₁.pages := by
    rw [hdesc₃, hpages₃]
    apply scanRows_congr
    intro p hp
    rw [hsame p hp]
  refine ⟨db₁, db₂, db₃, _, _, direct, hstep₁, ?_, hstep₃, hscan₄, ?_, hdirect, hboth⟩
  · change (heapScanWithOptionalSnapshot ⟨1⟩ none db₁).state? = some db₂
    rw [hscan₂]
    rfl
  · rw [Option.getD_none, hpooled]
    exact hresult

end OneTable

end PostgressRs.Executor.PooledScan
