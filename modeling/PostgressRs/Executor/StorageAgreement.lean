import PostgressRs.Executor.HeapAccess
import PostgressRs.RelationCatalog
import PostgressRs.Storage.FileStore
import PostgressRs.Storage.PageRoundTrip

/-!
A database over a file and one over memory: the same calls have the same replies.
-/

namespace PostgressRs.Executor.StorageAgreement

open PostgressRs.BufferCache.PagePool
open PostgressRs.BufferCache.SharedCache
open PostgressRs.Executor.HeapAccess
open PostgressRs.Lib.ByteBuffer
open PostgressRs.Lib.Procedure
open PostgressRs.RelationCatalog
open PostgressRs.Storage.FileStore
open PostgressRs.Storage.PageRoundTrip
open PostgressRs.Storage.PageStore
open PostgressRs.Storage.SlottedPage
open PostgressRs.Txn.TransactionTable
open PostgressRs.Types
open PostgressRs.Wal.LogRecord
open PostgressRs.Wal.WriteAheadLog

section Lengths

theorem writeTuples_length {lps lps' : List LinePointer} {tuples : List Bytes}
    {page page' : Bytes} {offset offset' : Nat}
    (h : HeapPage.writeTuples lps tuples page offset = some (lps', page', offset')) :
    page'.length = page.length := by
  induction lps generalizing lps' tuples page offset with
  | nil =>
      cases h
      rfl
  | cons lp lps ih =>
      unfold HeapPage.writeTuples at h
      -- the pair of a line pointer and the rest changes nothing of the page
      have hrest {page : Bytes} {offset : Nat}
          {f : List LinePointer × Bytes × Nat → Option (List LinePointer × Bytes × Nat)}
          (hf : ∀ rest out, f rest = some out → out.2 = rest.2)
          (hrest : (HeapPage.writeTuples lps tuples.tail page offset).bind f =
            some (lps', page', offset')) : page'.length = page.length := by
        obtain ⟨⟨lps₁, page₁, offset₁⟩, hwrite, hpure⟩ := Option.bind_eq_some_iff.mp hrest
        obtain ⟨rfl, rfl⟩ := Prod.mk.inj (hf _ _ hpure)
        exact ih hwrite
      have hpair (lp' : LinePointer) (rest out : List LinePointer × Bytes × Nat)
          (hpair : some (lp' :: rest.1, rest.2.1, rest.2.2) = some out) : out.2 = rest.2 := by
        cases hpair
        rfl
      split at h
      · split at h
        · split at h
          · exact hrest (hpair _) h
          · obtain ⟨start, -, h⟩ := Option.bind_eq_some_iff.mp h
            obtain ⟨page₁, hcopy, h⟩ := Option.bind_eq_some_iff.mp h
            rw [hrest (hpair _) h, copyFromSlice_length hcopy]
        · exact hrest (hpair _) h
      · exact hrest (hpair _) h

theorem writeLinePointers_length {lps : List LinePointer} {page page' : Bytes} {offset : Nat}
    (h : HeapPage.writeLinePointers lps page offset = some page') :
    page'.length = page.length := by
  induction lps generalizing page offset with
  | nil =>
      cases h
      rfl
  | cons lp lps ih =>
      obtain ⟨page₁, hcopy, hrest⟩ := Option.bind_eq_some_iff.mp h
      rw [ih hrest, copyFromSlice_length hcopy]

/-- A page has the same size whatever is on it. -/
theorem serialize_length {page : HeapPage} {data : Bytes} (h : page.serialize = some data) :
    data.length = 8192 := by
  obtain ⟨⟨lps, page₁, offset⟩, htuples, h⟩ := Option.bind_eq_some_iff.mp h
  obtain ⟨page₂, hheader, h⟩ := Option.bind_eq_some_iff.mp h
  rw [writeLinePointers_length h, copyFromSlice_length hheader, writeTuples_length htuples,
    List.length_replicate]
  rfl

end Lengths

section Pool

/-- Pools and stores of which the pages in `known` can be read in both. -/
structure SameDisk (known : PageId → Prop) (file : PoolState MmapStorage)
    (memory : PoolState EphemeralStorage) : Prop where
  pool_eq : file.pool = memory.pool
  clean : ∀ buf ∈ file.pool.buffers, buf.isDirty = false
  mirrors : Mirrors file.storage memory.storage
  inFile : ∀ p, known p → InFile file.storage p

variable {known : PageId → Prop} {file : PoolState MmapStorage}
  {memory : PoolState EphemeralStorage}

theorem SameDisk.setPool (h : SameDisk known file memory) {pool : BufferPool}
    (hclean : ∀ buf ∈ pool.buffers, buf.isDirty = false) :
    SameDisk known { file with pool := pool } { memory with pool := pool } :=
  ⟨rfl, hclean, h.mirrors, h.inFile⟩

theorem agree_lookupPage (p : PageId) :
    Agree (SameDisk known) (lookupPage p) (lookupPage p) (fun _ => SameDisk known)
      (SameDisk known) :=
  agree_read fun _ _ h => by rw [h.pool_eq]

theorem agree_buffer (idx : Nat) :
    Agree (SameDisk known) (buffer idx) (buffer idx)
      (fun buf file memory => SameDisk known file memory ∧ buf.isDirty = false)
      (SameDisk known) := by
  intro file memory h
  unfold buffer
  rw [← h.pool_eq]
  cases hbuf : file.pool.buffers[idx]? with
  | some buf => exact .ok ⟨h, h.clean buf (List.mem_of_getElem? hbuf)⟩
  | none => exact .panic

theorem agree_setBuffer (idx : Nat) {buf : Buffer} (hclean : buf.isDirty = false) :
    Agree (SameDisk known) (setBuffer idx buf) (setBuffer idx buf) (fun _ => SameDisk known)
      (SameDisk known) := by
  refine agree_modify ?_
  intro file memory h
  rw [← h.pool_eq]
  refine h.setPool ?_
  intro other hmem
  rcases List.mem_or_eq_of_mem_set hmem with hold | rfl
  · exact h.clean other hold
  · exact hclean

theorem agree_modifyMap (f : AList (fun _ : PageId => Nat) → AList fun _ : PageId => Nat) :
    Agree (SameDisk known) (modifyMap f) (modifyMap f) (fun _ => SameDisk known)
      (SameDisk known) := by
  refine agree_modify ?_
  intro file memory h
  rw [← h.pool_eq]
  exact h.setPool h.clean

theorem agree_readStorage {p : PageId} (hp : known p) :
    Agree (SameDisk known) (readStorage p) (readStorage p) (fun _ => SameDisk known)
      (SameDisk known) := by
  intro file memory h
  unfold readStorage
  rw [h.mirrors.read (h.inFile p hp), h.mirrors.pages p]
  exact .ok h

theorem agree_writeStorage (p : PageId) {data : Bytes} (hlen : data.length = 8192) :
    Agree (SameDisk known) (writeStorage p data) (writeStorage p data)
      (fun _ => SameDisk fun q => q = p ∨ known q) (SameDisk known) := by
  intro file memory h
  have hsize : data.length = file.storage.pageSize := hlen.trans h.mirrors.pageSize.symm
  have hne : data ≠ [] := by
    rintro rfl
    cases hlen
  unfold writeStorage
  rw [writePage_short (Nat.le_of_eq hsize), EphemeralStorage.writePage_eq]
  refine .ok ⟨h.pool_eq, h.clean, h.mirrors.write p hlen, ?_⟩
  rintro q (rfl | hq)
  · exact inFile_written hsize hne
  · exact (h.inFile q hq).written p data

theorem clockSweep_clean {poolSize rounds hand : Nat} {buffers buffers' : List Buffer}
    {swept : Option Nat} (hclean : ∀ buf ∈ buffers, buf.isDirty = false)
    (h : BufferPool.clockSweep poolSize rounds buffers hand = some (buffers', swept)) :
    ∀ buf ∈ buffers', buf.isDirty = false := by
  induction rounds generalizing buffers hand with
  | zero =>
      cases h
      exact hclean
  | succ rounds ih =>
      obtain ⟨buf, hbuf, h⟩ := Option.bind_eq_some_iff.mp h
      split at h
      · split at h
        · refine ih ?_ h
          intro other hmem
          rcases List.mem_or_eq_of_mem_set hmem with hold | rfl
          · exact hclean other hold
          · exact hclean buf (List.mem_of_getElem? hbuf)
        · cases h
          exact hclean
      · exact ih hclean h

theorem findVictim_clean {pool pool' : BufferPool} {slot : Nat}
    (hclean : ∀ buf ∈ pool.buffers, buf.isDirty = false)
    (h : pool.findVictim = some (pool', slot)) : ∀ buf ∈ pool'.buffers, buf.isDirty = false := by
  obtain ⟨⟨buffers, swept⟩, hsweep, h⟩ := Option.bind_eq_some_iff.mp h
  have hswept := clockSweep_clean hclean hsweep
  dsimp only at h
  split at h
  · cases h
    exact hswept
  · split at h
    · cases h
      exact hswept
    · cases h
      exact hswept

theorem agree_takeVictim :
    Agree (SameDisk known) takeVictim takeVictim (fun _ => SameDisk known) (SameDisk known) := by
  intro file memory h
  unfold takeVictim
  rw [← h.pool_eq]
  cases hfind : file.pool.findVictim with
  | some found => exact .ok (h.setPool (findVictim_clean h.clean hfind))
  | none => exact .panic

theorem agree_pinSlot (idx : Nat) :
    Agree (SameDisk known) (pinSlot idx) (pinSlot idx) (fun _ => SameDisk known)
      (SameDisk known) := by
  refine agree_bind (agree_buffer idx) fun buf => agree_assuming fun hclean => ?_
  refine agree_orPanic_bind fun usageCount _ => ?_
  refine agree_orPanic_bind fun pinCount _ => ?_
  exact agree_setBuffer idx hclean

/-- A clean victim is not written back. -/
theorem agree_fetchPage {p : PageId} (hp : known p) :
    Agree (SameDisk known) (fetchPage p) (fetchPage p) (fun _ => SameDisk known)
      (SameDisk known) := by
  refine agree_bind (agree_lookupPage p) fun found => ?_
  cases found with
  | some idx => exact agree_bind (agree_pinSlot idx) fun _ => agree_pure fun _ _ h => h
  | none =>
      refine agree_bind agree_takeVictim fun slot => ?_
      refine agree_bind (agree_readStorage hp) fun data => ?_
      refine agree_bind (agree_buffer slot) fun victim => agree_assuming fun hclean => ?_
      have hkept : ¬(victim.isDirty = true ∧ victim.pinCount = 0) := by
        rw [hclean]
        simp
      simp only [if_neg hkept]
      refine agree_bind (agree_setBuffer slot rfl) fun _ => ?_
      refine agree_bind (agree_modifyMap _) fun _ => ?_
      exact agree_pure fun _ _ h => h

theorem agree_fetchIndices {pageIds : List PageId} (hp : ∀ p ∈ pageIds, known p) :
    Agree (SameDisk known) (fetchIndices pageIds) (fetchIndices pageIds)
      (fun _ => SameDisk known) (SameDisk known) := by
  induction pageIds with
  | nil => exact agree_pure fun _ _ h => h
  | cons pageId pageIds ih =>
      refine agree_bind (agree_fetchPage (hp pageId List.mem_cons_self)) fun idx => ?_
      refine agree_bind (ih fun p hmem => hp p (List.mem_cons_of_mem _ hmem)) fun indices => ?_
      exact agree_pure fun _ _ h => h

theorem agree_readIndices (indices : List (PageId × Nat)) :
    Agree (SameDisk known) (readIndices indices) (readIndices indices)
      (fun _ => SameDisk known) (SameDisk known) := by
  induction indices with
  | nil => exact agree_pure fun _ _ h => h
  | cons entry indices ih =>
      refine agree_bind (agree_buffer entry.2) fun buf => agree_assuming fun _ => ?_
      refine agree_bind ih fun pages => ?_
      exact agree_pure fun _ _ h => h

theorem agree_invalidatePage (p : PageId) :
    Agree (SameDisk known) (invalidatePage p) (invalidatePage p) (fun _ => SameDisk known)
      (SameDisk known) := by
  refine agree_bind (agree_lookupPage p) fun found => ?_
  cases found with
  | some idx =>
      refine agree_bind (agree_modifyMap _) fun _ => ?_
      refine agree_bind (agree_buffer idx) fun buf => agree_assuming fun _ => ?_
      exact agree_setBuffer idx rfl
  | none => exact agree_pure fun _ _ h => h

end Pool

section Calls

variable [Bincode] {σ : Type} [StorageTrait σ]

def tupleInsertBulk (relOid : Oid) : List (List Bytes) → Proc (Database σ) Unit
  | [] => pure ()
  | values :: tuples => do
      tupleInsert relOid values
      tupleInsertBulk relOid tuples

/-- What is done with the relations of a database. -/
inductive HeapCall where
  | registerRelation (relOid : Oid) (name : String) (tupleDesc : TupleDesc)
  | unregisterRelation (relOid : Oid)
  | tupleInsert (relOid : Oid) (values : List Bytes)
  | tupleInsertBulk (relOid : Oid) (tuples : List (List Bytes))
  | tupleUpdate (relOid : Oid) (columnIdx : Nat) (newValue : Bytes) (filter : Option Filter)
  | tupleDelete (relOid : Oid) (filter : Option Filter)
  | slowScan (relOid : Oid) (filter : Option Filter)
  | heapScan (relOid : Oid) (snapshot : Option Snapshot)
  | vacuumRelation (relOid : Oid) (oldestXmin : UInt32)

inductive HeapReply where
  | done
  | affected (count : Nat)
  | rows (rows : List Row)

/-- A new relation has no pages. -/
def HeapCall.run : HeapCall → Proc (Database σ) HeapReply
  | .registerRelation relOid name tupleDesc => do
      onCache (modify fun cache => BufferCache.SharedCache.registerRelation cache
        { relOid := relOid, name := name, tupleDesc := tupleDesc, pages := [] })
      pure .done
  | .unregisterRelation relOid => do
      onCache (modify fun cache => RelationCatalog.unregisterRelation cache relOid)
      pure .done
  | .tupleInsert relOid values => do
      HeapAccess.tupleInsert relOid values
      pure .done
  | .tupleInsertBulk relOid tuples => do
      StorageAgreement.tupleInsertBulk relOid tuples
      pure .done
  | .tupleUpdate relOid columnIdx newValue filter => do
      let count ← HeapAccess.tupleUpdate relOid columnIdx newValue filter
      pure (.affected count)
  | .tupleDelete relOid filter => do
      let count ← HeapAccess.tupleDelete relOid filter
      pure (.affected count)
  | .slowScan relOid filter => do
      let rows ← HeapAccess.slowScan relOid filter
      pure (.rows rows)
  | .heapScan relOid snapshot => do
      let rows ← heapScanWithOptionalSnapshot relOid snapshot
      pure (.rows rows)
  | .vacuumRelation relOid oldestXmin => do
      let count ← HeapAccess.vacuumRelation relOid oldestXmin
      pure (.affected count)

/-- One call after the other; an error is a reply like any other. -/
def replies : List HeapCall → Proc (Database σ) (List (Except String HeapReply))
  | [] => pure []
  | call :: calls => do
      let reply ← attempt call.run
      let rest ← replies calls
      pure (reply :: rest)

/-- `run` of `src/server.rs`: what the server keeps over a store. -/
def serverDatabase (storage : σ) : Database σ where
  cache := SharedBufferCache.new storage
  wal := WAL.new 8192

end Calls

section Databases

/-- The pages of all relations are in `known`. -/
structure SameCache (known : PageId → Prop) (file : SharedBufferCache MmapStorage)
    (memory : SharedBufferCache EphemeralStorage) : Prop where
  rels_eq : file.rels = memory.rels
  disk : SameDisk known file.disk memory.disk
  registered : ∀ relOid rel, file.rels.lookup relOid = some rel → ∀ p ∈ rel.pages, known p

structure Same (known : PageId → Prop) (file : Database MmapStorage)
    (memory : Database EphemeralStorage) : Prop where
  wal_eq : file.wal = memory.wal
  cache : SameCache known file.cache memory.cache

def Alike (file : Database MmapStorage) (memory : Database EphemeralStorage) : Prop :=
  ∃ known, Same known file memory

variable {known known' : PageId → Prop} {α : Type} {Q : α → Database MmapStorage →
  Database EphemeralStorage → Prop}

theorem agree_onDisk {p : Proc (PoolState MmapStorage) α} {q : Proc (PoolState EphemeralStorage) α}
    (h : Agree (SameDisk known) p q (fun _ => SameDisk known') (SameDisk known))
    (hgrows : ∀ page, known page → known' page) :
    Agree (SameCache known) (onDisk p) (onDisk q) (fun _ => SameCache known')
      (SameCache known) := by
  refine agree_within h (fun _ _ hsame => hsame.disk) ?_ ?_
  · intro _ file memory _ _ hsame hdisk
    exact ⟨hsame.rels_eq, hdisk, fun relOid rel hrel p hp =>
      hgrows p (hsame.registered relOid rel hrel p hp)⟩
  · intro file memory _ _ hsame hdisk
    exact ⟨hsame.rels_eq, hdisk, hsame.registered⟩

theorem agree_onCache {p : Proc (SharedBufferCache MmapStorage) α}
    {q : Proc (SharedBufferCache EphemeralStorage) α}
    (h : Agree (SameCache known) p q (fun _ => SameCache known') (SameCache known)) :
    Agree (Same known) (onCache p) (onCache q) (fun _ => Same known') Alike := by
  refine agree_within h (fun _ _ hsame => hsame.cache) ?_ ?_
  · intro _ file memory _ _ hsame hcache
    exact ⟨hsame.wal_eq, hcache⟩
  · intro file memory _ _ hsame hcache
    exact ⟨known, hsame.wal_eq, hcache⟩

theorem agree_onWal (p : Proc WAL α) :
    Agree (Same known) (onWal p) (onWal p) (fun _ => Same known) Alike := by
  refine agree_within (agree_self p) (fun _ _ hsame => hsame.wal_eq) ?_ ?_
  · intro _ file memory _ _ hsame hwal
    exact ⟨hwal, hsame.cache⟩
  · intro file memory _ _ hsame hwal
    exact ⟨known, hwal, hsame.cache⟩

/-- The pages of a relation that is found can be read. -/
theorem agree_getRelationState_bind {relOid : Oid} {f : Relation → Proc (Database MmapStorage) α}
    {g : Relation → Proc (Database EphemeralStorage) α}
    (h : ∀ rel : Relation, (∀ p ∈ rel.pages, known p) →
      Agree (Same known) (f rel) (g rel) Q Alike) :
    Agree (Same known) (onCache (getRelationState relOid) >>= f)
      (onCache (getRelationState relOid) >>= g) Q Alike := by
  intro file memory hsame
  have hrels := hsame.cache.rels_eq
  cases hrel : file.cache.rels.lookup relOid with
  | some rel =>
      have hfile : onCache (getRelationState relOid) file = .ok rel file := by
        simp [onCache, within, getRelationState, hrel]
      have hmemory : onCache (getRelationState relOid) memory = .ok rel memory := by
        simp [onCache, within, getRelationState, ← hrels, hrel]
      rw [bind_ok hfile, bind_ok hmemory]
      exact h rel (hsame.cache.registered relOid rel hrel) file memory hsame
  | none =>
      have hfile : onCache (getRelationState relOid) file = .err "Relation not found" file := by
        simp [onCache, within, getRelationState, hrel]
      have hmemory :
          onCache (getRelationState relOid) memory = .err "Relation not found" memory := by
        simp [onCache, within, getRelationState, ← hrels, hrel]
      rw [bind_apply, bind_apply, hfile, hmemory]
      exact .err ⟨known, hsame⟩

theorem lookup_registered {rels : AList fun _ : Oid => Relation} {relOid other : Oid}
    {rel found : Relation} (h : (rels.insert relOid rel).lookup other = some found) :
    found = rel ∨ rels.lookup other = some found := by
  rcases eq_or_ne other relOid with rfl | hne
  · rw [AList.lookup_insert] at h
    exact Or.inl (Option.some.inj h).symm
  · rw [AList.lookup_insert_ne hne] at h
    exact Or.inr h

theorem agree_setRelation (relOid : Oid) {rel : Relation} (hrel : ∀ p ∈ rel.pages, known p) :
    Agree (SameCache known) (setRelation relOid rel) (setRelation relOid rel)
      (fun _ => SameCache known) (SameCache known) := by
  refine agree_modify ?_
  intro file memory hsame
  refine ⟨congrArg (AList.insert relOid rel) hsame.rels_eq, hsame.disk, ?_⟩
  intro other found hfound
  rcases lookup_registered hfound with rfl | hold
  · exact hrel
  · exact hsame.registered other found hold

theorem agree_registerRelation {rel : Relation} (hempty : rel.pages = []) :
    Agree (SameCache known) (modify fun cache => registerRelation cache rel)
      (modify fun cache => registerRelation cache rel) (fun _ => SameCache known)
      (SameCache known) := by
  refine agree_modify ?_
  intro file memory hsame
  unfold registerRelation
  rw [← hsame.rels_eq]
  cases hlookup : file.rels.lookup rel.relOid with
  | some _ => exact hsame
  | none =>
      refine ⟨rfl, hsame.disk, ?_⟩
      intro other found hfound
      rcases lookup_registered hfound with rfl | hold
      · rw [hempty]
        simp
      · exact hsame.registered other found hold

theorem agree_unregisterRelation (relOid : Oid) :
    Agree (SameCache known) (modify fun cache => unregisterRelation cache relOid)
      (modify fun cache => unregisterRelation cache relOid) (fun _ => SameCache known)
      (SameCache known) := by
  refine agree_modify ?_
  intro file memory hsame
  refine ⟨congrArg (AList.erase relOid) hsame.rels_eq, hsame.disk, ?_⟩
  intro other found hfound
  rcases eq_or_ne other relOid with rfl | hne
  · rw [unregisterRelation, AList.lookup_erase] at hfound
    cases hfound
  · rw [unregisterRelation, AList.lookup_erase_ne hne] at hfound
    exact hsame.registered other found hfound

theorem agree_readHeapPage {p : PageId} (hp : known p) :
    Agree (Same known) (readHeapPage p) (readHeapPage p) (fun _ => Same known) Alike := by
  refine agree_bind (agree_onCache (agree_onDisk (agree_readStorage hp) fun _ h => h)) ?_
  intro data file memory hsame
  cases HeapPage.deserialize data with
  | some page => exact .ok hsame
  | none => exact .panic

theorem agree_writeHeapPage (p : PageId) (page : HeapPage) :
    Agree (Same known) (writeHeapPage p page) (writeHeapPage p page)
      (fun _ => Same fun q => q = p ∨ known q) Alike := by
  refine agree_orPanic_bind fun data hdata => ?_
  refine agree_onCache (agree_onDisk (agree_writeStorage p (serialize_length hdata)) ?_)
  exact fun _ h => Or.inr h

theorem agree_rewriteHeapPage {p : PageId} (hp : known p) (page : HeapPage) :
    Agree (Same known) (writeHeapPage p page) (writeHeapPage p page) (fun _ => Same known)
      Alike := by
  have hknown : (fun q => q = p ∨ known q) = known := by
    funext q
    exact propext ⟨fun h => h.elim (fun heq => heq ▸ hp) id, Or.inr⟩
  have hwrite := @agree_writeHeapPage known p page
  rwa [hknown] at hwrite

end Databases

section Operations

variable {known : PageId → Prop} {α : Type} {p : Proc (Database MmapStorage) α}
  {q : Proc (Database EphemeralStorage) α}

/-- The call has the same outcome over both stores, which then still agree. -/
def SameOutcome (p : Proc (Database MmapStorage) α) (q : Proc (Database EphemeralStorage) α) :
    Prop :=
  Agree Alike p q (fun _ => Alike) Alike

theorem sameOutcome_of_same (h : ∀ known, Agree (Same known) p q (fun _ => Alike) Alike) :
    SameOutcome p q := by
  rintro file memory ⟨known, hsame⟩
  exact h known file memory hsame

theorem agree_knowing {H : (PageId → Prop) → Prop} {Q : α → Database MmapStorage →
      Database EphemeralStorage → Prop}
    (h : ∀ known, H known → Agree (Same known) p q Q Alike) :
    Agree (fun file memory => ∃ known, Same known file memory ∧ H known) p q Q Alike := by
  rintro file memory ⟨known, hsame, hknown⟩
  exact h known hknown file memory hsame

theorem alike_of_same (file : Database MmapStorage) (memory : Database EphemeralStorage)
    (h : Same known file memory) : Alike file memory :=
  ⟨known, h⟩

theorem agree_alike (h : Agree (Same known) p q (fun _ => Same known) Alike) :
    Agree (Same known) p q (fun _ => Alike) Alike :=
  h.imp (fun _ _ hsame => hsame) fun _ => alike_of_same

theorem agree_done {a : α} :
    Agree (Same known) (pure a : Proc (Database MmapStorage) α)
      (pure a : Proc (Database EphemeralStorage) α) (fun _ => Same known) Alike :=
  agree_pure fun _ _ h => h

/-- The page to insert into can be read, and so can the relation's other pages. -/
theorem agree_insertPage {rel : Relation} (hrel : ∀ p ∈ rel.pages, known p) :
    Agree (Same known) (insertPage rel) (insertPage rel)
      (fun chosen file memory => ∃ known', Same known' file memory ∧ known' chosen.2 ∧
        ∀ p ∈ chosen.1.pages, known' p) Alike := by
  unfold insertPage
  split
  · refine agree_bind (agree_writeHeapPage _ _) fun _ => agree_pure fun file memory h => ?_
    refine ⟨_, h, Or.inl rfl, ?_⟩
    intro p hp
    rcases List.mem_append.mp hp with hold | hnew
    · exact Or.inr (hrel p hold)
    · exact Or.inl (List.mem_singleton.mp hnew)
  · rename_i pageId hlast
    refine agree_pure fun file memory h => ?_
    exact ⟨known, h, hrel pageId (List.mem_of_getLast? hlast), hrel⟩

variable [Bincode]

theorem agree_logged (record : WALRecord) (a : α) :
    Agree (Same known) (do let _ ← onWal (append record); pure a)
      (do let _ ← onWal (append record); pure a) (fun _ => Same known) Alike :=
  agree_bind (agree_onWal _) fun _ => agree_done

theorem sameOutcome_tupleInsert (relOid : Oid) (values : List Bytes) :
    SameOutcome (tupleInsert relOid values) (tupleInsert relOid values) := by
  refine sameOutcome_of_same fun known => agree_getRelationState_bind fun rel hrel => ?_
  refine agree_bind (agree_insertPage hrel) fun ⟨rel, pageId⟩ => ?_
  refine agree_knowing fun known ⟨hpage, hpages⟩ => ?_
  refine agree_bind (agree_readHeapPage hpage) fun heapPage => ?_
  refine agree_bind (agree_onWal _) fun xid => ?_
  refine agree_ofExcept_bind alike_of_same fun encoded _ => ?_
  refine agree_orPanic_bind fun ⟨heapPage, slot⟩ _ => ?_
  cases slot with
  | none =>
      refine agree_orPanic_bind fun newPageId _ => ?_
      refine agree_orPanic_bind fun _ _ => ?_
      refine agree_bind (agree_writeHeapPage newPageId _) fun _ => ?_
      refine agree_bind (agree_rewriteHeapPage (Or.inr hpage) _) fun _ => ?_
      refine agree_bind (agree_onCache (agree_setRelation relOid ?_)) fun _ => ?_
      · intro p hp
        rcases List.mem_append.mp hp with hold | hnew
        · exact Or.inr (hpages p hold)
        · exact Or.inl (List.mem_singleton.mp hnew)
      · exact agree_alike (agree_logged _ ())
  | some _ =>
      refine agree_bind (agree_rewriteHeapPage hpage _) fun _ => ?_
      refine agree_bind (agree_onCache (agree_setRelation relOid hpages)) fun _ => ?_
      exact agree_alike (agree_logged _ ())

theorem sameOutcome_tupleInsertBulk (relOid : Oid) (tuples : List (List Bytes)) :
    SameOutcome (tupleInsertBulk relOid tuples) (tupleInsertBulk relOid tuples) := by
  induction tuples with
  | nil => exact agree_pure fun _ _ h => h
  | cons values tuples ih => exact agree_bind (sameOutcome_tupleInsert relOid values) fun _ => ih

theorem agree_updateTuple {pageId : PageId} (hpage : known pageId) (relOid : Oid)
    (heapPage : HeapPage) (slotIdx : Nat) (tup : Tuple) (newData : Bytes) :
    Agree (Same known) (updateTuple relOid pageId heapPage slotIdx tup newData)
      (updateTuple relOid pageId heapPage slotIdx tup newData) (fun _ => Same known) Alike := by
  refine agree_bind (agree_onWal _) fun xid => ?_
  refine agree_ofExcept_bind alike_of_same fun newEncoded _ => ?_
  refine agree_orPanic_bind fun ⟨heapPage, hotSlot⟩ _ => ?_
  refine agree_ofExcept_bind alike_of_same fun oldEncoded _ => ?_
  refine agree_orPanic_bind fun heapPage _ => ?_
  cases hotSlot with
  | some newSlot =>
      refine agree_bind (agree_rewriteHeapPage hpage heapPage) fun _ => ?_
      refine agree_orPanic_bind fun newBytes _ => ?_
      refine agree_ofExcept_bind alike_of_same fun newTup _ => ?_
      exact agree_logged _ heapPage
  | none =>
      refine agree_ofExcept_bind alike_of_same fun newEncoded _ => ?_
      refine agree_orPanic_bind fun ⟨heapPage, _⟩ _ => ?_
      refine agree_bind (agree_rewriteHeapPage hpage heapPage) fun _ => ?_
      exact agree_logged _ heapPage

theorem agree_updateTuples {pageId : PageId} (hpage : known pageId) (relOid : Oid)
    (tuples : List (Nat × Tuple × Bytes)) (heapPage : HeapPage) :
    Agree (Same known) (updateTuples relOid pageId tuples heapPage)
      (updateTuples relOid pageId tuples heapPage) (fun _ => Same known) Alike := by
  induction tuples generalizing heapPage with
  | nil => exact agree_done
  | cons entry tuples ih => exact agree_bind (agree_updateTuple hpage _ _ _ _ _) fun page => ih page

theorem agree_updatePages (relOid : Oid) (desc : TupleDesc) (columnIdx : Nat) (newValue : Bytes)
    (filter : Option Filter) {pageIds : List PageId} (hpages : ∀ p ∈ pageIds, known p) :
    Agree (Same known) (updatePages relOid desc columnIdx newValue filter pageIds)
      (updatePages relOid desc columnIdx newValue filter pageIds) (fun _ => Same known) Alike := by
  induction pageIds with
  | nil => exact agree_done
  | cons pageId pageIds ih =>
      have hpage := hpages pageId List.mem_cons_self
      refine agree_bind (agree_readHeapPage hpage) fun heapPage => ?_
      refine agree_bind (agree_updateTuples hpage relOid _ heapPage) fun _ => ?_
      refine agree_bind (ih fun p hp => hpages p (List.mem_cons_of_mem _ hp)) fun _ => ?_
      exact agree_done

theorem agree_deleteTuple {pageId : PageId} (hpage : known pageId) (relOid : Oid)
    (heapPage : HeapPage) (slotIdx : Nat) (tup : Tuple) :
    Agree (Same known) (deleteTuple relOid pageId heapPage slotIdx tup)
      (deleteTuple relOid pageId heapPage slotIdx tup) (fun _ => Same known) Alike := by
  refine agree_bind (agree_onWal _) fun xid => ?_
  refine agree_ofExcept_bind alike_of_same fun encoded _ => ?_
  refine agree_orPanic_bind fun heapPage _ => ?_
  refine agree_bind (agree_rewriteHeapPage hpage heapPage) fun _ => ?_
  exact agree_logged _ heapPage

theorem agree_deleteTuples {pageId : PageId} (hpage : known pageId) (relOid : Oid)
    (tuples : List (Nat × Tuple)) (heapPage : HeapPage) :
    Agree (Same known) (deleteTuples relOid pageId tuples heapPage)
      (deleteTuples relOid pageId tuples heapPage) (fun _ => Same known) Alike := by
  induction tuples generalizing heapPage with
  | nil => exact agree_done
  | cons entry tuples ih => exact agree_bind (agree_deleteTuple hpage _ _ _ _) fun page => ih page

theorem agree_deletePages (relOid : Oid) (desc : TupleDesc) (filter : Option Filter)
    {pageIds : List PageId} (hpages : ∀ p ∈ pageIds, known p) :
    Agree (Same known) (deletePages relOid desc filter pageIds)
      (deletePages relOid desc filter pageIds) (fun _ => Same known) Alike := by
  induction pageIds with
  | nil => exact agree_done
  | cons pageId pageIds ih =>
      have hpage := hpages pageId List.mem_cons_self
      refine agree_bind (agree_readHeapPage hpage) fun heapPage => ?_
      refine agree_bind (agree_deleteTuples hpage relOid _ heapPage) fun _ => ?_
      refine agree_bind (ih fun p hp => hpages p (List.mem_cons_of_mem _ hp)) fun _ => ?_
      exact agree_done

theorem agree_scanPages (desc : TupleDesc) (snapshot : Snapshot) (filter : Option Filter)
    {pageIds : List PageId} (hpages : ∀ p ∈ pageIds, known p) :
    Agree (Same known) (scanPages desc snapshot filter pageIds)
      (scanPages desc snapshot filter pageIds) (fun _ => Same known) Alike := by
  induction pageIds with
  | nil => exact agree_done
  | cons pageId pageIds ih =>
      refine agree_bind (agree_readHeapPage (hpages pageId List.mem_cons_self)) fun page => ?_
      refine agree_bind (ih fun p hp => hpages p (List.mem_cons_of_mem _ hp)) fun _ => ?_
      exact agree_done

theorem agree_scanFetched (desc : TupleDesc) (snapshot : Snapshot)
    (pages : List (PageId × Bytes)) :
    Agree (Same known) (scanFetched desc snapshot pages) (scanFetched desc snapshot pages)
      (fun _ => Same known) Alike := by
  induction pages with
  | nil => exact agree_done
  | cons entry pages ih =>
      refine agree_orPanic_bind fun page _ => ?_
      exact agree_bind ih fun _ => agree_done

theorem agree_heapScan (relOid : Oid) (snapshot : Option Snapshot) :
    Agree (Same known) (heapScanWithOptionalSnapshot relOid snapshot)
      (heapScanWithOptionalSnapshot relOid snapshot) (fun _ => Same known) Alike := by
  refine agree_getRelationState_bind fun rel hrel => ?_
  have hfetch : Agree (SameDisk known) (fetchPagesBatch rel.pages) (fetchPagesBatch rel.pages)
      (fun _ => SameDisk known) (SameDisk known) :=
    agree_bind (agree_fetchIndices hrel) agree_readIndices
  refine agree_bind (agree_onCache (agree_onDisk hfetch fun _ h => h)) fun pages => ?_
  exact agree_scanFetched _ _ pages

theorem agree_vacuumPages (oldestXmin : UInt32) {pageIds : List PageId}
    (hpages : ∀ p ∈ pageIds, known p) :
    Agree (Same known) (vacuumPages oldestXmin pageIds) (vacuumPages oldestXmin pageIds)
      (fun _ => Same known) Alike := by
  induction pageIds with
  | nil => exact agree_done
  | cons pageId pageIds ih =>
      have hpage := hpages pageId List.mem_cons_self
      have hrest := ih fun p hp => hpages p (List.mem_cons_of_mem _ hp)
      refine agree_bind (agree_readHeapPage hpage) fun heapPage => ?_
      dsimp only
      split
      · refine agree_orPanic_bind fun compacted _ => ?_
        refine agree_bind (agree_rewriteHeapPage hpage compacted) fun _ => ?_
        refine agree_bind
          (agree_onCache (agree_onDisk (agree_invalidatePage pageId) fun _ h => h)) fun _ => ?_
        exact agree_bind hrest fun _ => agree_done
      · exact agree_bind hrest fun _ => agree_done

end Operations

section Sessions

theorem sameOutcome_reply {α : Type} {p : Proc (Database MmapStorage) α}
    {q : Proc (Database EphemeralStorage) α} (h : SameOutcome p q) (reply : α → HeapReply) :
    SameOutcome (do let a ← p; pure (reply a)) (do let a ← q; pure (reply a)) :=
  agree_bind h fun _ => agree_pure fun _ _ halike => halike

variable [Bincode]

theorem sameOutcome_run (call : HeapCall) : SameOutcome call.run call.run := by
  cases call with
  | registerRelation relOid name tupleDesc =>
      refine sameOutcome_reply (sameOutcome_of_same fun known => ?_) fun _ => .done
      exact agree_alike (agree_onCache (agree_registerRelation rfl))
  | unregisterRelation relOid =>
      refine sameOutcome_reply (sameOutcome_of_same fun known => ?_) fun _ => .done
      exact agree_alike (agree_onCache (agree_unregisterRelation relOid))
  | tupleInsert relOid values =>
      exact sameOutcome_reply (sameOutcome_tupleInsert relOid values) fun _ => .done
  | tupleInsertBulk relOid tuples =>
      exact sameOutcome_reply (sameOutcome_tupleInsertBulk relOid tuples) fun _ => .done
  | tupleUpdate relOid columnIdx newValue filter =>
      refine sameOutcome_reply (sameOutcome_of_same fun known => ?_) .affected
      exact agree_getRelationState_bind fun rel hrel =>
        agree_alike (agree_updatePages relOid _ columnIdx newValue filter hrel)
  | tupleDelete relOid filter =>
      refine sameOutcome_reply (sameOutcome_of_same fun known => ?_) .affected
      exact agree_getRelationState_bind fun rel hrel =>
        agree_alike (agree_deletePages relOid _ filter hrel)
  | slowScan relOid filter =>
      refine sameOutcome_reply (sameOutcome_of_same fun known => ?_) .rows
      exact agree_getRelationState_bind fun rel hrel =>
        agree_alike (agree_scanPages _ maxSnapshot filter hrel)
  | heapScan relOid snapshot =>
      refine sameOutcome_reply (sameOutcome_of_same fun known => ?_) .rows
      exact agree_alike (agree_heapScan relOid snapshot)
  | vacuumRelation relOid oldestXmin =>
      refine sameOutcome_reply (sameOutcome_of_same fun known => ?_) .affected
      exact agree_getRelationState_bind fun rel hrel =>
        agree_alike (agree_vacuumPages oldestXmin hrel)

theorem sameOutcome_replies (calls : List HeapCall) :
    SameOutcome (replies calls) (replies calls) := by
  induction calls with
  | nil => exact agree_pure fun _ _ h => h
  | cons call calls ih =>
      refine agree_bind (agree_attempt (sameOutcome_run call)) fun reply => ?_
      exact agree_bind ih fun rest => agree_pure fun _ _ h => h

omit [Bincode] in
theorem alike_serverDatabase :
    Alike (serverDatabase (.openFile 8192 (by decide))) (serverDatabase .new) := by
  refine ⟨fun _ => False, rfl, rfl, ⟨rfl, ?_, mirrors_new, ?_⟩, ?_⟩
  · intro buf hbuf
    rw [List.eq_of_mem_replicate hbuf]
    rfl
  · intro p hp
    cases hp
  · intro relOid rel hrel
    rw [serverDatabase, SharedBufferCache.new, AList.lookup_empty] at hrel
    cases hrel

/-- A server over a file gives the replies that a server in memory gives. -/
theorem file_replies_eq (calls : List HeapCall) :
    (replies calls (serverDatabase (MmapStorage.openFile 8192 (by decide)))).result? =
      (replies calls (serverDatabase EphemeralStorage.new)).result? :=
  (sameOutcome_replies calls _ _ alike_serverDatabase).result_eq

end Sessions

end PostgressRs.Executor.StorageAgreement
