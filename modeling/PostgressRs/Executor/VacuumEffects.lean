import Mathlib.Algebra.BigOperators.Group.List.Basic
import PostgressRs.Executor.InsertComplete
import PostgressRs.Executor.RowVersions

/-!
What `vacuum_relation` makes of a relation's stored pages: each page keeps the
tuples that were not deleted before `oldest_xmin`, in their order, and loses
their slot numbers where a dead slot precedes them.
-/

namespace PostgressRs.Executor.VacuumEffects

open PostgressRs.BufferCache.PagePool
open PostgressRs.BufferCache.PoolInvariants hiding contents
open PostgressRs.BufferCache.SharedCache
open PostgressRs.Executor.HeapAccess
open PostgressRs.Executor.HeapContents
open PostgressRs.Executor.HeapInvariant
open PostgressRs.Executor.HeapSteps
open PostgressRs.Executor.InsertComplete
open PostgressRs.Executor.RowVersions
open PostgressRs.Lib.ByteBuffer
open PostgressRs.Lib.Procedure
open PostgressRs.Storage.PageContents
open PostgressRs.Storage.PageRoundTrip
open PostgressRs.Storage.PageStore
open PostgressRs.Storage.SlottedPage
open PostgressRs.Txn.TransactionTable
open PostgressRs.Types
open PostgressRs.Wal.LogRecord
open PostgressRs.Wal.WriteAheadLog

section Marking

variable [Bincode]

/-- The tuple was deleted before `oldestXmin`. -/
def expired (oldestXmin : UInt32) (tupleData : Bytes) : Bool :=
  match deserializeTuple tupleData with
  | .ok tup => tup.xmax ≠ 0 && decide (tup.xmax < oldestXmin.toUInt64)
  | .error _ => false

variable {oldestXmin : UInt32}

theorem reclaimable_some (lp : LinePointer) (tuple : Bytes) :
    reclaimable oldestXmin lp (some tuple) =
      (decide (lp.lpFlags = lpNormal) && expired oldestXmin tuple) := by
  unfold reclaimable expired
  cases hdecoded : deserializeTuple tuple with
  | ok tup => simp only [hdecoded, Bool.and_assoc]
  | error e => simp only [hdecoded, Bool.and_false]

theorem markReclaimable_contents {lps : List LinePointer} {tuples : List Bytes} :
    normalTuples (markReclaimable oldestXmin lps tuples).1 tuples =
      (normalTuples lps tuples).filter fun tuple => !expired oldestXmin tuple := by
  induction lps generalizing tuples with
  | nil => rfl
  | cons lp lps ih =>
      cases tuples with
      | nil =>
          simp only [markReclaimable, normalTuples, List.filter_nil]
          split
          · rfl
          · rfl
      | cons tuple tuples =>
          have htail := @ih tuples
          simp only [markReclaimable, List.head?_cons, List.tail_cons, reclaimable_some]
          by_cases hnormal : lp.lpFlags = lpNormal
          · by_cases hexpired : expired oldestXmin tuple = true
            · simp [hnormal, hexpired, normalTuples, lpDead_ne_lpNormal, htail]
            · simp [hnormal, hexpired, normalTuples, htail]
          · simp [hnormal, normalTuples, htail]

theorem markReclaimable_count {lps : List LinePointer} {tuples : List Bytes} :
    (normalTuples (markReclaimable oldestXmin lps tuples).1 tuples).length +
        (markReclaimable oldestXmin lps tuples).2 = (normalTuples lps tuples).length := by
  induction lps generalizing tuples with
  | nil => rfl
  | cons lp lps ih =>
      cases tuples with
      | nil =>
          have hnone := @ih []
          have hzero : (markReclaimable oldestXmin lps []).2 = 0 := by
            simpa [normalTuples] using hnone
          simp [markReclaimable, normalTuples, reclaimable, hzero]
      | cons tuple tuples =>
          have htail := @ih tuples
          simp only [markReclaimable, List.head?_cons, List.tail_cons, reclaimable_some]
          by_cases hnormal : lp.lpFlags = lpNormal
          · by_cases hexpired : expired oldestXmin tuple = true
            · simp only [hnormal, hexpired, normalTuples, lpDead_ne_lpNormal, decide_true,
                Bool.and_self, if_true, if_false, List.length_cons]
              omega
            · simp only [hnormal, hexpired, normalTuples, decide_true, Bool.and_false,
                Bool.false_eq_true, if_true, if_false, List.length_cons]
              omega
          · simp only [hnormal, normalTuples, decide_false, Bool.false_and, Bool.false_eq_true,
              if_false]
            exact htail

end Marking

section Pages

variable [Bincode] {σ : Type} [StorageTrait σ]

/-- The page that vacuum writes back, if it reclaims anything. -/
def sweptPage (oldestXmin : UInt32) (page : HeapPage) : Option HeapPage :=
  { page with
    linePointers := (markReclaimable oldestXmin page.linePointers page.tuples).1 }.compact

/-- How many tuples vacuum reclaims on a page. -/
def reclaimed (oldestXmin : UInt32) (page : HeapPage) : Nat :=
  (markReclaimable oldestXmin page.linePointers page.tuples).2

/-- `page'` is what vacuum leaves of `page`. -/
def SweptTo (oldestXmin : UInt32) (page page' : HeapPage) : Prop :=
  reclaimed oldestXmin page = 0 ∧ page' = page ∨
    ∃ written, 0 < reclaimed oldestXmin page ∧ WellFormed written ∧
      sweptPage oldestXmin page = some written ∧ page' = stored written

/-- The number of `LP_NORMAL` slots of a page. -/
def normalSlots (page : HeapPage) : Nat :=
  (page.linePointers.filter fun lp => lp.lpFlags = lpNormal).length

/-- The pages are vacuumed and the others are as before. -/
structure Swept (oldestXmin : UInt32) (ids : List PageId) (db db' : Database σ) : Prop where
  rels_eq : db'.cache.rels = db.cache.rels
  sound : Sound db'.cache.disk.pool
  swept : ∀ p ∈ ids, ∀ page, PageAt db.cache.disk.storage p page →
    ∃ page', PageAt db'.cache.disk.storage p page' ∧ SweptTo oldestXmin page page'
  others : ∀ p, p ∉ ids → readPage db'.cache.disk.storage p = readPage db.cache.disk.storage p

variable {oldestXmin : UInt32} {db : Database σ}

theorem sweptPage_ok {page : HeapPage} (h : WellFormed page) :
    ∃ written, sweptPage oldestXmin page = some written ∧ WellFormed written ∧
      contents written = (contents page).filter fun tuple => !expired oldestXmin tuple := by
  have hretired := markReclaimable_retired oldestXmin page.linePointers page.tuples
  have hholds : Holds (fun _ => True) page := ⟨h, fun _ _ _ _ _ _ => trivial⟩
  obtain ⟨written, hcompact, hwf, hcontents⟩ :=
    compact_ok (holds_retired hholds hretired).wellFormed
  exact ⟨written, hcompact, hwf, hcontents.trans markReclaimable_contents⟩

omit [Bincode] in
theorem normalSlots_eq {page : HeapPage} (h : WellFormed page) :
    normalSlots page = (contents page).length := (normalTuples_length h.length_eq).symm

/-- Vacuum takes the tuples it reclaims from the page, and no others. -/
theorem SweptTo.normalSlots_add {page page' : HeapPage} (hpage : WellFormed page)
    (h : SweptTo oldestXmin page page') :
    normalSlots page' + reclaimed oldestXmin page = normalSlots page := by
  rcases h with ⟨hnone, rfl⟩ | ⟨written, _, hwritten, hswept, rfl⟩
  · rw [hnone, Nat.add_zero]
  · obtain ⟨written', hswept', _, hcontents⟩ := @sweptPage_ok _ oldestXmin page hpage
    rw [hswept] at hswept'
    cases hswept'
    rw [normalSlots_eq (wellFormed_stored hwritten), contents_stored, hcontents,
      normalSlots_eq hpage, contents, ← markReclaimable_contents]
    exact markReclaimable_count

theorem Swept.cons {db₁ db' : Database σ} {q : PageId} {ids : List PageId} (hq : q ∉ ids)
    (hrels : db₁.cache.rels = db.cache.rels)
    (hothers : ∀ p, p ≠ q →
      readPage db₁.cache.disk.storage p = readPage db.cache.disk.storage p)
    (hswept : ∀ page, PageAt db.cache.disk.storage q page →
      ∃ page', PageAt db₁.cache.disk.storage q page' ∧ SweptTo oldestXmin page page')
    (hrest : Swept oldestXmin ids db₁ db') : Swept oldestXmin (q :: ids) db db' := by
  refine ⟨hrest.rels_eq.trans hrels, hrest.sound, ?_, ?_⟩
  · intro p hp page hpage
    rcases List.mem_cons.mp hp with rfl | hmem
    · obtain ⟨page', ⟨data, hread, hdata⟩, hto⟩ := hswept page hpage
      exact ⟨page', ⟨data, (hrest.others p hq).trans hread, hdata⟩, hto⟩
    · obtain ⟨data, hread, hdata⟩ := hpage
      have hne : p ≠ q := by
        rintro rfl
        exact hq hmem
      exact hrest.swept p hmem page ⟨data, (hothers p hne).trans hread, hdata⟩
  · intro p hp
    obtain ⟨hne, hp⟩ := List.ne_and_not_mem_of_not_mem_cons hp
    exact (hrest.others p hp).trans (hothers p hne)

variable [LawfulStorage σ]

omit [Bincode] in
theorem sweep_ok {page : HeapPage} {q : PageId} (hpool : Sound db.cache.disk.pool)
    (hpage : WellFormed page) :
    ∃ db₁ db', writeHeapPage q page db = .ok () db₁ ∧
      onCache (onDisk (invalidatePage q)) db₁ = .ok () db' ∧
      db'.cache.rels = db.cache.rels ∧ Sound db'.cache.disk.pool ∧
      db'.cache.disk.storage = (writePage db.cache.disk.storage q (image page)).2 := by
  obtain ⟨disk, hinvalidate, hstorage, hsound⟩ := @invalidatePage_ok σ
    ⟨db.cache.disk.pool, (writePage db.cache.disk.storage q (image page)).2⟩ hpool q
  exact ⟨_, { db with cache := { db.cache with disk := disk } },
    writeHeapPage_ok (serialize_eq_image hpage), within_ok (within_ok hinvalidate), rfl, hsound,
    hstorage⟩

/-- Vacuum returns the number of the tuples it reclaims. -/
theorem vacuumPages_ok (oldestXmin : UInt32) {ids : List PageId} (hnodup : ids.Nodup)
    (hpool : Sound db.cache.disk.pool)
    (hpages : ∀ p ∈ ids, ∃ page, Held db.cache.disk.storage p page) :
    ∃ db', vacuumPages oldestXmin ids db =
        .ok (tupleCount db.cache.disk.storage (reclaimed oldestXmin) ids) db' ∧
      Swept oldestXmin ids db db' := by
  induction ids generalizing db with
  | nil => exact ⟨db, rfl, rfl, hpool, by simp, fun _ _ => rfl⟩
  | cons q ids ih =>
      obtain ⟨hq, hnodup⟩ := List.nodup_cons.mp hnodup
      obtain ⟨page₀, hheld⟩ := hpages q List.mem_cons_self
      have hat := hheld.pageAt
      have hwf := wellFormed_stored hheld.wellFormed
      have hne : ∀ p ∈ ids, p ≠ q := by
        rintro p hp rfl
        exact hq hp
      generalize stored page₀ = page at hat hwf
      have hcount : tupleCount db.cache.disk.storage (reclaimed oldestXmin) (q :: ids) =
          reclaimed oldestXmin page +
            tupleCount db.cache.disk.storage (reclaimed oldestXmin) ids := by
        rw [tupleCount, List.map_cons, List.sum_cons, pageOf_eq_some.mpr hat]
        rfl
      rw [hcount, vacuumPages, bind_ok (readHeapPage_eq_ok.mpr ⟨hat, rfl⟩)]
      by_cases hzero : 0 < reclaimed oldestXmin page
      · obtain ⟨written, hswept, hwritten, _⟩ := @sweptPage_ok _ oldestXmin page hwf
        obtain ⟨db₁, db₂, hwrite, hinvalidate, hrels, hsound, hstorage⟩ :=
          sweep_ok hpool hwritten (q := q)
        have hread : ∀ p, p ≠ q →
            readPage db₂.cache.disk.storage p = readPage db.cache.disk.storage p := by
          intro p hp
          rw [hstorage]
          exact LawfulStorage.read_write_of_ne _ _ _ _ hp
        obtain ⟨db', hrest, hsweptRest⟩ := ih hnodup hsound fun p hp => by
          obtain ⟨page', hpage'⟩ := hpages p (List.mem_cons_of_mem _ hp)
          exact ⟨page', hpage'.wellFormed, (hread p (hne p hp)).trans hpage'.read_eq⟩
        refine ⟨db', ?_, hsweptRest.cons hq hrels hread ?_⟩
        · rw [tupleCount_congr fun p hp => hread p (hne p hp)] at hrest
          simp only [reclaimed, sweptPage] at hzero hswept
          simp only [hzero, if_true, hswept, bind_ok (orPanic_some _ _), bind_ok hwrite,
            bind_ok hinvalidate, bind_ok hrest]
          rfl
        · intro page' hpage'
          obtain rfl := pageAt_unique hpage' hat
          refine ⟨stored written, ?_, Or.inr ⟨written, hzero, hwritten, hswept, rfl⟩⟩
          rw [hstorage]
          exact (held_write _ _ hwritten).pageAt
      · obtain ⟨db', hrest, hsweptRest⟩ := ih hnodup hpool fun p hp =>
          hpages p (List.mem_cons_of_mem _ hp)
        have hnone : reclaimed oldestXmin page = 0 := Nat.eq_zero_of_not_pos hzero
        refine ⟨db', ?_, hsweptRest.cons hq rfl (fun _ _ => rfl) ?_⟩
        · simp only [reclaimed] at hzero
          simp only [hzero, if_false, bind_ok hrest]
          rfl
        · intro page' hpage'
          obtain rfl := pageAt_unique hpage' hat
          exact ⟨page', hpage', Or.inl ⟨hnone, rfl⟩⟩

end Pages

section Visible

variable [Bincode] {desc : TupleDesc} {snapshot : Snapshot}

/-- The row values of an encoded tuple that the snapshot shows. -/
def visibleValues (desc : TupleDesc) (snapshot : Snapshot) (tupleData : Bytes) :
    Option (List String) :=
  match deserializeTuple tupleData with
  | .ok tup => if isVisible tup snapshot then some (decodeTupleValues tup desc) else none
  | .error _ => none

theorem pageRows_values (p : PageId) (tuples : List Bytes) (desc : TupleDesc)
    (snapshot : Snapshot) :
    (pageRows p tuples desc snapshot none).map Prod.snd =
      tuples.filterMap (visibleValues desc snapshot) := by
  have hslot : ∀ entry : Bytes × Nat,
      (slotRow p desc snapshot none entry.2 entry.1).map Prod.snd =
        (visibleValues desc snapshot ∘ Prod.fst) entry := by
    rintro ⟨bytes, slot⟩
    simp only [slotRow, visibleValues, Function.comp_apply, scanFilter, if_true]
    cases deserializeTuple bytes with
    | error e => rfl
    | ok tup =>
        by_cases hvisible : isVisible tup snapshot = true
        · simp [hvisible]
        · simp [hvisible]
  rw [pageRows, List.map_filterMap, funext hslot, ← List.filterMap_map, List.zipIdx_map_fst]

theorem visibleValues_nil [LawfulBincode] : visibleValues desc snapshot [] = none := by
  obtain ⟨e, hnil⟩ := LawfulBincode.deserialize_nil
  simp only [visibleValues, hnil]

/-- What was deleted before `oldestXmin` is invisible to every snapshot from
`oldestXmin` on. -/
theorem visibleValues_of_expired {oldestXmin : UInt32} (hxid : oldestXmin ≤ snapshot.xid.val)
    (hactive : ∀ x ∈ snapshot.activeXids, oldestXmin ≤ x.val) {tuple : Bytes}
    (h : expired oldestXmin tuple = true) : visibleValues desc snapshot tuple = none := by
  unfold expired at h
  unfold visibleValues
  cases hdecoded : deserializeTuple tuple with
  | error e => rfl
  | ok tup =>
      simp only [hdecoded, Bool.and_eq_true, decide_eq_true_eq] at h
      obtain ⟨hne, hlt⟩ := h
      have hsmall : tup.xmax.toUInt32 < oldestXmin := by
        rw [UInt32.lt_iff_toNat_lt, UInt64.toNat_toUInt32]
        rw [UInt64.lt_iff_toNat_lt, UInt32.toNat_toUInt64] at hlt
        exact Nat.lt_of_le_of_lt (Nat.mod_le _ _) hlt
      have hcovers : Covers snapshot tup.xmax := by
        refine ⟨hne, ?_, UInt32.lt_of_lt_of_le hsmall hxid⟩
        intro hmem
        exact absurd (hactive _ hmem) (UInt32.not_le.mpr hsmall)
      have hinvisible : isVisible tup snapshot ≠ true :=
        fun hvisible => ((isVisible_iff tup snapshot).mp hvisible).2 hcovers
      simp only [hinvisible]
      rfl

theorem sweptTo_values [LawfulBincode] {oldestXmin : UInt32} {page₀ page' : HeapPage}
    (hpage₀ : WellFormed page₀) (hxid : oldestXmin ≤ snapshot.xid.val)
    (hactive : ∀ x ∈ snapshot.activeXids, oldestXmin ≤ x.val)
    (h : SweptTo oldestXmin (stored page₀) page') :
    page'.tuples.filterMap (visibleValues desc snapshot) =
      (stored page₀).tuples.filterMap (visibleValues desc snapshot) := by
  rcases h with ⟨_, rfl⟩ | ⟨written, _, _, hswept, rfl⟩
  · rfl
  · obtain ⟨written', hswept', _, hcontents⟩ :=
      @sweptPage_ok _ oldestXmin _ (wellFormed_stored hpage₀)
    rw [hswept] at hswept'
    cases hswept'
    calc
      (stored written).tuples.filterMap (visibleValues desc snapshot)
          = (contents written).filterMap (visibleValues desc snapshot) :=
        filterMap_restored _ visibleValues_nil _ _
      _ = ((contents page₀).filter fun tuple => !expired oldestXmin tuple).filterMap
            (visibleValues desc snapshot) := by rw [hcontents, contents_stored]
      _ = (contents page₀).filterMap (visibleValues desc snapshot) := by
        rw [List.filterMap_filter]
        apply List.filterMap_congr
        intro tuple _
        by_cases hexpired : expired oldestXmin tuple = true
        · simp [hexpired, visibleValues_of_expired hxid hactive hexpired]
        · simp [hexpired]
      _ = (stored page₀).tuples.filterMap (visibleValues desc snapshot) :=
        (filterMap_restored _ visibleValues_nil _ _).symm

variable {σ : Type} [StorageTrait σ] [LawfulStorage σ] {db : Database σ} {relOid : Oid}
  {rel : Relation}

omit [LawfulStorage σ] in
theorem Swept.scanRows_values [LawfulBincode] {db' : Database σ} {oldestXmin : UInt32}
    {ids : List PageId} (h : Swept oldestXmin ids db db')
    (hpages : ∀ p ∈ ids, ∃ page, Held db.cache.disk.storage p page)
    (hxid : oldestXmin ≤ snapshot.xid.val)
    (hactive : ∀ x ∈ snapshot.activeXids, oldestXmin ≤ x.val) :
    (scanRows (pageOf db'.cache.disk.storage) desc snapshot ids).map Prod.snd =
      (scanRows (pageOf db.cache.disk.storage) desc snapshot ids).map Prod.snd := by
  rw [scanRows, scanRows, List.map_flatMap, List.map_flatMap]
  apply List.flatMap_congr
  intro p hp
  obtain ⟨page₀, hheld⟩ := hpages p hp
  obtain ⟨page', hpage', hto⟩ := h.swept p hp _ hheld.pageAt
  rw [pageOf_eq_some.mpr hpage', pageOf_eq_some.mpr hheld.pageAt, pageRows_values,
    pageRows_values]
  exact sweptTo_values hheld.wellFormed hxid hactive hto

omit [LawfulStorage σ] in
theorem Swept.tupleCount_add {db' : Database σ} {oldestXmin : UInt32} {ids : List PageId}
    (h : Swept oldestXmin ids db db')
    (hpages : ∀ p ∈ ids, ∃ page, Held db.cache.disk.storage p page) :
    tupleCount db'.cache.disk.storage normalSlots ids +
        tupleCount db.cache.disk.storage (reclaimed oldestXmin) ids =
      tupleCount db.cache.disk.storage normalSlots ids := by
  rw [tupleCount, tupleCount, tupleCount, ← List.sum_map_add]
  congr 1
  apply List.map_congr_left
  intro p hp
  obtain ⟨page₀, hheld⟩ := hpages p hp
  obtain ⟨page', hpage', hto⟩ := h.swept p hp _ hheld.pageAt
  rw [pageOf_eq_some.mpr hpage', pageOf_eq_some.mpr hheld.pageAt]
  exact hto.normalSlots_add (wellFormed_stored hheld.wellFormed)

/-- Vacuum returns the number of tuples it took from the stored pages, and every
snapshot from `oldestXmin` on shows the same rows in the same order. -/
theorem vacuum_preserves_visible [LawfulBincode] (hrel : db.cache.rels.lookup relOid = some rel)
    (hnodup : rel.pages.Nodup)
    (hpages : ∀ p ∈ rel.pages, ∃ page, Held db.cache.disk.storage p page)
    (hpool : Sound db.cache.disk.pool) {oldestXmin : UInt32}
    (hxid : oldestXmin ≤ snapshot.xid.val)
    (hactive : ∀ x ∈ snapshot.activeXids, oldestXmin ≤ x.val) :
    ∃ count db' rows rows', vacuumRelation relOid oldestXmin db = .ok count db' ∧
      db'.cache.rels.lookup relOid = some rel ∧
      scanPages rel.tupleDesc snapshot none rel.pages db = .ok rows db ∧
      scanPages rel.tupleDesc snapshot none rel.pages db' = .ok rows' db' ∧
      rows'.map Prod.snd = rows.map Prod.snd ∧
      tupleCount db'.cache.disk.storage normalSlots rel.pages + count =
        tupleCount db.cache.disk.storage normalSlots rel.pages := by
  have hget : onCache (getRelationState relOid) db = .ok rel db :=
    getRelationState_eq_ok.mpr ⟨hrel, rfl⟩
  obtain ⟨db', hvacuum, hswept⟩ := vacuumPages_ok oldestXmin hnodup hpool hpages
  have hbefore : ∀ p ∈ rel.pages, ∃ page, PageAt db.cache.disk.storage p page := by
    intro p hp
    obtain ⟨page, hheld⟩ := hpages p hp
    exact ⟨_, hheld.pageAt⟩
  have hafter : ∀ p ∈ rel.pages, ∃ page, PageAt db'.cache.disk.storage p page := by
    intro p hp
    obtain ⟨page, hpage⟩ := hbefore p hp
    obtain ⟨page', hpage', _⟩ := hswept.swept p hp page hpage
    exact ⟨page', hpage'⟩
  refine ⟨_, db', _, _, ?_, ?_, scanPages_rows _ _ hbefore, scanPages_rows _ _ hafter,
    hswept.scanRows_values hpages hxid hactive, hswept.tupleCount_add hpages⟩
  · rw [vacuumRelation, bind_ok hget, hvacuum]
  · rw [hswept.rels_eq]
    exact hrel

end Visible

section Slots

/-- The tuple of a slot, if the slot is normal. -/
def tupleAt (lps : List LinePointer) (tuples : List Bytes) (slot : Nat) : Option Bytes :=
  match lps[slot]? with
  | some lp => if lp.lpFlags = lpNormal then tuples[slot]? else none
  | none => none

/-- No dead slot precedes a normal one. -/
def DeadLast (lps : List LinePointer) : Prop :=
  ∀ (i j : Nat) (lp lp' : LinePointer), i < j → lps[i]? = some lp → lps[j]? = some lp' →
    lp.lpFlags = lpDead → lp'.lpFlags ≠ lpNormal

variable {lps : List LinePointer} {tuples : List Bytes}

theorem getTuple_eq_tupleAt (page : HeapPage) (slot : UInt16) :
    page.getTuple slot = tupleAt page.linePointers page.tuples slot.toNat := rfl

/-- A slot of a compacted page stood at least as far back before. -/
theorem liveSlots_getElem? (hlen : tuples.length = lps.length) {slot : Nat}
    {live : LinePointer × Bytes} (h : (HeapPage.liveSlots lps tuples)[slot]? = some live) :
    ∃ i, slot ≤ i ∧ lps[i]? = some live.1 := by
  induction lps generalizing tuples slot with
  | nil => cases h
  | cons lp lps ih =>
      cases tuples with
      | nil => cases hlen
      | cons tuple tuples =>
          rw [HeapPage.liveSlots, List.tail_cons] at h
          by_cases hdead : lp.lpFlags = lpDead
          · rw [if_neg (not_not_intro hdead)] at h
            obtain ⟨i, hle, hi⟩ := ih (Nat.succ.inj hlen) h
            exact ⟨i + 1, Nat.le_succ_of_le hle, hi⟩
          · rw [if_pos hdead] at h
            cases slot with
            | zero =>
                cases h
                exact ⟨0, Nat.le_refl _, rfl⟩
            | succ slot =>
                obtain ⟨i, hle, hi⟩ := ih (Nat.succ.inj hlen) h
                exact ⟨i + 1, Nat.succ_le_succ hle, hi⟩

theorem tupleAt_liveSlots_normal (hlen : tuples.length = lps.length) {slot : Nat} {tuple : Bytes}
    (h : tupleAt ((HeapPage.liveSlots lps tuples).map Prod.fst)
      ((HeapPage.liveSlots lps tuples).map Prod.snd) slot = some tuple) :
    ∃ i lp, slot ≤ i ∧ lps[i]? = some lp ∧ lp.lpFlags = lpNormal := by
  unfold tupleAt at h
  rw [List.getElem?_map] at h
  cases hlive : (HeapPage.liveSlots lps tuples)[slot]? with
  | none =>
      rw [hlive] at h
      cases h
  | some live =>
      rw [hlive, Option.map_some] at h
      simp only at h
      split at h
      · rename_i hnormal
        obtain ⟨i, hle, hi⟩ := liveSlots_getElem? hlen hlive
        exact ⟨i, live.1, hle, hi, hnormal⟩
      · cases h

theorem tupleAt_of_normal (hlen : tuples.length = lps.length) {slot : Nat} {lp : LinePointer}
    (hlp : lps[slot]? = some lp) (hnormal : lp.lpFlags = lpNormal) :
    ∃ tuple, tupleAt lps tuples slot = some tuple := by
  have hlt : slot < tuples.length := by
    rw [hlen]
    exact (List.getElem?_eq_some_iff.mp hlp).1
  refine ⟨tuples[slot], ?_⟩
  simp only [tupleAt, hlp, if_pos hnormal, List.getElem?_eq_getElem hlt]

theorem normal_of_tupleAt {slot : Nat} {tuple : Bytes} (h : tupleAt lps tuples slot = some tuple) :
    ∃ lp, lps[slot]? = some lp ∧ lp.lpFlags = lpNormal := by
  unfold tupleAt at h
  split at h
  · rename_i lp hlp
    split at h
    · rename_i hnormal
      exact ⟨lp, hlp, hnormal⟩
    · cases h
  · cases h

/-- No bounded set of numbers has a larger one for each of its members. -/
theorem not_of_ascending {P : Nat → Prop} (bound : Nat) (hbound : ∀ n, P n → n < bound)
    (hnext : ∀ n, P n → ∃ m, n < m ∧ P m) : ∀ n, ¬P n := by
  have hfuel : ∀ fuel n, bound ≤ n + fuel → ¬P n := by
    intro fuel
    induction fuel with
    | zero =>
        intro n hle hn
        exact absurd (hbound n hn) (Nat.not_lt_of_le hle)
    | succ fuel ih =>
        intro n hle hn
        obtain ⟨m, hlt, hm⟩ := hnext n hn
        exact ih m (by omega) hm
  intro n
  exact hfuel bound n (Nat.le_add_left _ _)

/-- Compaction keeps the slots of all tuples if and only if no dead slot precedes
a normal one. -/
theorem liveSlots_keep_slots_iff (hlen : tuples.length = lps.length) :
    (∀ slot tuple, tupleAt lps tuples slot = some tuple →
      tupleAt ((HeapPage.liveSlots lps tuples).map Prod.fst)
        ((HeapPage.liveSlots lps tuples).map Prod.snd) slot = some tuple) ↔ DeadLast lps := by
  induction lps generalizing tuples with
  | nil =>
      constructor
      · intro _ i j lp lp' _ hi
        cases hi
      · intro _ slot tuple h
        cases h
  | cons lp lps ih =>
      cases tuples with
      | nil => cases hlen
      | cons tuple tuples =>
          have hlen' : tuples.length = lps.length := Nat.succ.inj hlen
          by_cases hdead : lp.lpFlags = lpDead
          · have hlive : HeapPage.liveSlots (lp :: lps) (tuple :: tuples) =
                HeapPage.liveSlots lps tuples := if_neg (not_not_intro hdead)
            rw [hlive]
            constructor
            · -- each normal slot yields a later one, so there is none
              intro hkeep i j lp₁ lp₂ _ _ hj _ hnormal
              refine @not_of_ascending
                (fun slot => ∃ lp', (lp :: lps)[slot]? = some lp' ∧ lp'.lpFlags = lpNormal)
                (lp :: lps).length ?_ ?_ j ⟨lp₂, hj, hnormal⟩
              · rintro slot ⟨lp', hlp', _⟩
                exact (List.getElem?_eq_some_iff.mp hlp').1
              · rintro slot ⟨lp', hlp', hnormal'⟩
                obtain ⟨tuple', htuple'⟩ := tupleAt_of_normal hlen hlp' hnormal'
                obtain ⟨i, lp'', hle, hi, hnormal''⟩ :=
                  tupleAt_liveSlots_normal hlen' (hkeep slot tuple' htuple')
                exact ⟨i + 1, Nat.lt_succ_of_le hle, lp'', hi, hnormal''⟩
            · intro hlast slot tuple' hat
              obtain ⟨lp', hlp', hnormal⟩ := normal_of_tupleAt hat
              cases slot with
              | zero =>
                  cases hlp'
                  rw [hdead] at hnormal
                  exact absurd hnormal lpDead_ne_lpNormal
              | succ slot =>
                  exact absurd hnormal (hlast 0 (slot + 1) lp lp' (Nat.succ_pos _) rfl hlp' hdead)
          · have hlive : HeapPage.liveSlots (lp :: lps) (tuple :: tuples) =
                (lp, tuple) :: HeapPage.liveSlots lps tuples := if_pos hdead
            rw [hlive]
            constructor
            · intro hkeep
              have htail := (ih hlen').mp fun slot tuple' hat => hkeep (slot + 1) tuple' hat
              intro i j lp₁ lp₂ hlt hi hj hdead₁
              cases i with
              | zero =>
                  cases hi
                  exact absurd hdead₁ hdead
              | succ i =>
                  cases j with
                  | zero => exact absurd hlt (Nat.not_lt_zero _)
                  | succ j => exact htail i j lp₁ lp₂ (Nat.lt_of_succ_lt_succ hlt) hi hj hdead₁
            · intro hlast slot tuple' hat
              cases slot with
              | zero => exact hat
              | succ slot =>
                  refine (ih hlen').mpr ?_ slot tuple' hat
                  intro i j lp₁ lp₂ hlt hi hj
                  exact hlast (i + 1) (j + 1) lp₁ lp₂ (Nat.succ_lt_succ hlt) hi hj

variable [Bincode] {oldestXmin : UInt32}

theorem markReclaimable_getElem? (lps : List LinePointer) (tuples : List Bytes) (slot : Nat) :
    (markReclaimable oldestXmin lps tuples).1[slot]? =
      lps[slot]?.map fun lp =>
        if reclaimable oldestXmin lp tuples[slot]? then { lp with lpFlags := lpDead } else lp := by
  induction lps generalizing tuples slot with
  | nil => rfl
  | cons lp lps ih =>
      cases slot with
      | zero =>
          have hhead : tuples.head? = tuples[0]? := List.head?_eq_getElem?
          by_cases hreclaim : reclaimable oldestXmin lp tuples[0]? = true
          · simp [markReclaimable, hhead, hreclaim]
          · simp [markReclaimable, hhead, hreclaim]
      | succ slot =>
          have htail := ih tuples.tail slot
          rw [List.getElem?_tail] at htail
          simp only [markReclaimable]
          split
          · exact htail
          · exact htail

/-- The slot is dead or becomes dead in a vacuum. -/
def Gone (oldestXmin : UInt32) (page : HeapPage) (slot : Nat) : Prop :=
  ∃ lp, page.linePointers[slot]? = some lp ∧
    (lp.lpFlags = lpDead ∨ reclaimable oldestXmin lp page.tuples[slot]? = true)

/-- The slot has a tuple that a vacuum does not reclaim. -/
def Remains (oldestXmin : UInt32) (page : HeapPage) (slot : Nat) : Prop :=
  ∃ lp, page.linePointers[slot]? = some lp ∧ lp.lpFlags = lpNormal ∧
    reclaimable oldestXmin lp page.tuples[slot]? = false

/-- A page that vacuum does not rewrite, or on which no slot that is dead or
becomes dead precedes a tuple that stays. -/
def KeepsSlots (oldestXmin : UInt32) (page : HeapPage) : Prop :=
  reclaimed oldestXmin page = 0 ∨
    ∀ i j, i < j → Gone oldestXmin page i → ¬Remains oldestXmin page j

theorem gone_iff (page : HeapPage) (slot : Nat) :
    Gone oldestXmin page slot ↔
      ∃ lp, (markReclaimable oldestXmin page.linePointers page.tuples).1[slot]? = some lp ∧
        lp.lpFlags = lpDead := by
  rw [markReclaimable_getElem?]
  constructor
  · rintro ⟨lp, hlp, hgone⟩
    refine ⟨_, by rw [hlp, Option.map_some], ?_⟩
    split
    · rfl
    · rename_i hkept
      exact hgone.resolve_right hkept
  · rintro ⟨lp, hlp, hdead⟩
    obtain ⟨lp', hlp', rfl⟩ := Option.map_eq_some_iff.mp hlp
    refine ⟨lp', hlp', ?_⟩
    split at hdead
    · rename_i hreclaim
      exact Or.inr hreclaim
    · exact Or.inl hdead

theorem remains_iff (page : HeapPage) (slot : Nat) :
    Remains oldestXmin page slot ↔
      ∃ lp, (markReclaimable oldestXmin page.linePointers page.tuples).1[slot]? = some lp ∧
        lp.lpFlags = lpNormal := by
  rw [markReclaimable_getElem?]
  constructor
  · rintro ⟨lp, hlp, hnormal, hkept⟩
    refine ⟨_, by rw [hlp, Option.map_some], ?_⟩
    rw [hkept]
    exact hnormal
  · rintro ⟨lp, hlp, hnormal⟩
    obtain ⟨lp', hlp', rfl⟩ := Option.map_eq_some_iff.mp hlp
    split at hnormal
    · exact absurd hnormal lpDead_ne_lpNormal
    · rename_i hkept
      exact ⟨lp', hlp', hnormal, Bool.eq_false_of_not_eq_true hkept⟩

theorem deadLast_marked_iff (page : HeapPage) :
    DeadLast (markReclaimable oldestXmin page.linePointers page.tuples).1 ↔
      ∀ i j, i < j → Gone oldestXmin page i → ¬Remains oldestXmin page j := by
  constructor
  · intro hlast i j hlt hgone hremains
    obtain ⟨lp, hi, hdead⟩ := (gone_iff page i).mp hgone
    obtain ⟨lp', hj, hnormal⟩ := (remains_iff page j).mp hremains
    exact hlast i j lp lp' hlt hi hj hdead hnormal
  · intro hlast i j lp lp' hlt hi hj hdead hnormal
    exact hlast i j hlt ((gone_iff page i).mpr ⟨lp, hi, hdead⟩)
      ((remains_iff page j).mpr ⟨lp', hj, hnormal⟩)

/-- The tuples that vacuum does not reclaim are those of the marked page. -/
theorem tupleAt_marked_iff (page : HeapPage) (slot : Nat) (tuple : Bytes) :
    tupleAt (markReclaimable oldestXmin page.linePointers page.tuples).1 page.tuples slot =
        some tuple ↔
      tupleAt page.linePointers page.tuples slot = some tuple ∧
        expired oldestXmin tuple = false := by
  unfold tupleAt
  rw [markReclaimable_getElem?]
  cases hlp : page.linePointers[slot]? with
  | none => simp
  | some lp =>
      simp only [Option.map_some]
      cases htuple : page.tuples[slot]? with
      | none => simp [reclaimable]
      | some tuple' =>
          rw [reclaimable_some]
          by_cases hnormal : lp.lpFlags = lpNormal
          · by_cases hexpired : expired oldestXmin tuple' = true
            · simp only [hnormal, hexpired, decide_true, Bool.and_self, if_true,
                lpDead_ne_lpNormal, if_false, reduceCtorEq, Option.some.injEq, false_iff]
              rintro ⟨rfl, hkept⟩
              rw [hexpired] at hkept
              cases hkept
            · simp only [hnormal, hexpired, decide_true, Bool.and_false, Bool.false_eq_true,
                if_false, if_true, Option.some.injEq, iff_self_and]
              rintro rfl
              exact Bool.eq_false_of_not_eq_true hexpired
          · simp [hnormal]

/-- A vacuumed page keeps the slots of the tuples that stay if and only if none
of them is behind a slot that is dead or becomes dead. -/
theorem sweptTo_keeps_slots_iff {page page' : HeapPage} (hpage : WellFormed page)
    (h : SweptTo oldestXmin page page') :
    (∀ slot tuple, page.getTuple slot = some tuple → expired oldestXmin tuple = false →
      page'.getTuple slot = some tuple) ↔ KeepsSlots oldestXmin page := by
  rcases h with ⟨hnone, rfl⟩ | ⟨written, hsome, hwritten, hswept, rfl⟩
  · exact iff_of_true (fun _ _ hat _ => hat) (Or.inl hnone)
  · have hretired := markReclaimable_retired oldestXmin page.linePointers page.tuples
    set marked := (markReclaimable oldestXmin page.linePointers page.tuples).1 with hmarked
    have hlen : page.tuples.length = marked.length := hpage.length_eq.trans hretired.length_eq
    have hslots : (∀ slot tuple, page.getTuple slot = some tuple →
          expired oldestXmin tuple = false → (stored written).getTuple slot = some tuple) ↔
        ∀ slot tuple, tupleAt marked page.tuples slot = some tuple →
          tupleAt ((HeapPage.liveSlots marked page.tuples).map Prod.fst)
            ((HeapPage.liveSlots marked page.tuples).map Prod.snd) slot = some tuple := by
      have hget : ∀ slot : UInt16, (stored written).getTuple slot =
          tupleAt ((HeapPage.liveSlots marked page.tuples).map Prod.fst)
            ((HeapPage.liveSlots marked page.tuples).map Prod.snd) slot.toNat := by
        intro slot
        rw [stored_getTuple hwritten]
        obtain ⟨_, _, hcompact⟩ := Option.bind_eq_some_iff.mp hswept
        cases hcompact
        rfl
      constructor
      · intro hkeep slot tuple hat
        obtain ⟨lp, hlp, _⟩ := normal_of_tupleAt hat
        have hlt : slot < 2 ^ 16 := by
          have hbound := linePointers_lt hpage
          have hslot := (List.getElem?_eq_some_iff.mp hlp).1
          rw [← hretired.length_eq] at hslot
          omega
        have hval : (UInt16.ofNat slot).toNat = slot := by
          rw [UInt16.toNat_ofNat']
          exact Nat.mod_eq_of_lt hlt
        obtain ⟨hbefore, hkept⟩ := (tupleAt_marked_iff page slot tuple).mp hat
        have hafter := hkeep (UInt16.ofNat slot) tuple
          (by rw [getTuple_eq_tupleAt, hval]; exact hbefore) hkept
        rwa [hget, hval] at hafter
      · intro hkeep slot tuple hbefore hkept
        rw [hget]
        exact hkeep slot.toNat tuple ((tupleAt_marked_iff page _ tuple).mpr ⟨hbefore, hkept⟩)
    rw [hslots, liveSlots_keep_slots_iff hlen, hmarked, deadLast_marked_iff]
    constructor
    · exact Or.inr
    · rintro (hnone | hkeeps)
      · omega
      · exact hkeeps

/-- After a vacuum every tuple that it did not reclaim is in its old slot if and
only if no page that was rewritten had a dead or reclaimed slot before such a
tuple. -/
theorem vacuum_keeps_slots_iff {σ : Type} [StorageTrait σ] [LawfulStorage σ] {db : Database σ}
    {relOid : Oid} {rel : Relation} (hrel : db.cache.rels.lookup relOid = some rel)
    (hnodup : rel.pages.Nodup)
    (hpages : ∀ p ∈ rel.pages, ∃ page, Held db.cache.disk.storage p page)
    (hpool : Sound db.cache.disk.pool) (oldestXmin : UInt32) :
    ∃ count db', vacuumRelation relOid oldestXmin db = .ok count db' ∧
      ((∀ p ∈ rel.pages, ∀ page, PageAt db.cache.disk.storage p page →
        ∃ page', PageAt db'.cache.disk.storage p page' ∧
          ∀ slot tuple, page.getTuple slot = some tuple → expired oldestXmin tuple = false →
            page'.getTuple slot = some tuple) ↔
        ∀ p ∈ rel.pages, ∀ page, PageAt db.cache.disk.storage p page →
          KeepsSlots oldestXmin page) := by
  have hget : onCache (getRelationState relOid) db = .ok rel db :=
    getRelationState_eq_ok.mpr ⟨hrel, rfl⟩
  obtain ⟨db', hvacuum, hswept⟩ := vacuumPages_ok oldestXmin hnodup hpool hpages
  refine ⟨_, db', by rw [vacuumRelation, bind_ok hget, hvacuum], ?_⟩
  refine forall₂_congr fun p hp => forall₂_congr fun page hpage => ?_
  obtain ⟨page', hpage', hto⟩ := hswept.swept p hp page hpage
  obtain ⟨page₀, hheld⟩ := hpages p hp
  have hwf : WellFormed page := by
    rw [pageAt_unique hpage hheld.pageAt]
    exact wellFormed_stored hheld.wellFormed
  rw [← sweptTo_keeps_slots_iff hwf hto]
  constructor
  · rintro ⟨page'', hpage'', hkeep⟩
    rwa [pageAt_unique hpage' hpage'']
  · intro hkeep
    exact ⟨page', hpage', hkeep⟩

end Slots

section OnePage

/-- A version of a one-byte row. -/
def version (xmin xmax : UInt64) (value : UInt8) : Tuple where
  slots := [⟨0⟩]
  data := [value]
  xmin := xmin
  xmax := xmax
  cmin := 0
  cmax := 0
  xvac := 0

/-- A table with one stored page. -/
def tableOf (page : HeapPage) : Database EphemeralStorage where
  cache :=
    { disk := ⟨BufferPool.new 1024, (writePage EphemeralStorage.new ⟨1⟩ (image page)).2⟩
      rels := AList.insert ⟨1⟩ { emptyTable with pages := [⟨1⟩] } ∅ }
  wal := WAL.new 8192

theorem tableOf_registered (page : HeapPage) :
    (tableOf page).cache.rels.lookup ⟨1⟩ = some { emptyTable with pages := [⟨1⟩] } :=
  AList.lookup_insert _

theorem tableOf_held {page : HeapPage} (h : WellFormed page) :
    ∀ p ∈ [(⟨1⟩ : PageId)], ∃ page', Held (tableOf page).cache.disk.storage p page' := by
  intro p hp
  rw [List.mem_singleton.mp hp]
  exact ⟨page, held_write _ _ h⟩

/-- A page with two versions. -/
def twoVersions (first second : Tuple) : HeapPage where
  header := { PageHeader.new with pdLower := 34, pdUpper := 8090 }
  linePointers := [LinePointer.new 8141, LinePointer.new 8090]
  tuples := [encodeTuple first, encodeTuple second]

theorem version_length (xmin xmax : UInt64) (value : UInt8) :
    (encodeTuple (version xmin xmax value)).length = 51 := encodeTuple_length _

theorem twoVersions_wellFormed (xmin xmax : UInt64) (value : UInt8) (xmin' xmax' : UInt64)
    (value' : UInt8) :
    WellFormed (twoVersions (version xmin xmax value) (version xmin' xmax' value')) := by
  have hfirst := version_length xmin xmax value
  have hsecond := version_length xmin' xmax' value'
  refine ⟨rfl, ?_, rfl, rfl, show (34 : UInt16).toNat ≤ (8090 : UInt16).toNat by decide, ?_⟩
  · intro slot lp tuple _ htuple _
    have hmem := List.mem_of_getElem? htuple
    rcases List.mem_cons.mp hmem with rfl | hmem
    · exact List.ne_nil_of_length_pos (by omega)
    · rw [List.mem_singleton.mp hmem]
      exact List.ne_nil_of_length_pos (by omega)
  · change 8090 + ((encodeTuple _).length + ((encodeTuple _).length + 0)) ≤ 8192
    omega

def deletedThenLive : HeapPage := twoVersions (version 1 2 97) (version 1 0 98)

def liveThenDeleted : HeapPage := twoVersions (version 1 0 98) (version 1 2 97)

theorem not_keepsSlots_deletedThenLive : ¬KeepsSlots 3 (stored deletedThenLive) := by
  rintro (hnone | hkeeps)
  · exact absurd hnone (by decide)
  · exact hkeeps 0 1 (by decide) ⟨⟨8141, 0⟩, by decide, Or.inr (by decide)⟩
      ⟨⟨8090, 0⟩, by decide, by decide, by decide⟩

theorem vacuum_moves_live_tuple :
    ∃ count db' page page' slot tuple,
      vacuumRelation ⟨1⟩ 3 (tableOf deletedThenLive) = .ok count db' ∧
      PageAt (tableOf deletedThenLive).cache.disk.storage ⟨1⟩ page ∧
      PageAt db'.cache.disk.storage ⟨1⟩ page' ∧ page.getTuple slot = some tuple ∧
      expired 3 tuple = false ∧ page'.getTuple slot ≠ some tuple := by
  have hwf : WellFormed deletedThenLive := twoVersions_wellFormed _ _ _ _ _ _
  have hget := getRelationState_eq_ok.mpr ⟨tableOf_registered deletedThenLive, rfl⟩
  obtain ⟨db', hvacuum, hswept⟩ := vacuumPages_ok 3 (by simp) (sound_new (by decide))
    (tableOf_held hwf)
  have hpage : PageAt (tableOf deletedThenLive).cache.disk.storage ⟨1⟩ (stored deletedThenLive) :=
    (held_write _ _ hwf).pageAt
  obtain ⟨page', hpage', hto⟩ := hswept.swept ⟨1⟩ (List.mem_singleton_self _) _ hpage
  have hmoves := mt (sweptTo_keeps_slots_iff (wellFormed_stored hwf) hto).mp
    not_keepsSlots_deletedThenLive
  push Not at hmoves
  obtain ⟨slot, tuple, hbefore, hkept, hafter⟩ := hmoves
  exact ⟨_, db', _, page', slot, tuple, (bind_ok hget).trans hvacuum, hpage, hpage', hbefore,
    hkept, hafter⟩

theorem vacuum_keeps_slots_iff_last :
    ∃ count db', vacuumRelation ⟨1⟩ 3 (tableOf liveThenDeleted) = .ok count db' ∧
      ∀ p ∈ [(⟨1⟩ : PageId)], ∀ page,
        PageAt (tableOf liveThenDeleted).cache.disk.storage p page →
        ∃ page', PageAt db'.cache.disk.storage p page' ∧
          ∀ slot tuple, page.getTuple slot = some tuple → expired 3 tuple = false →
            page'.getTuple slot = some tuple := by
  have hwf : WellFormed liveThenDeleted := twoVersions_wellFormed _ _ _ _ _ _
  obtain ⟨count, db', hvacuum, hiff⟩ := vacuum_keeps_slots_iff
    (tableOf_registered liveThenDeleted) (by simp) (tableOf_held hwf) (sound_new (by decide)) 3
  refine ⟨count, db', hvacuum, hiff.mpr ?_⟩
  intro p hp page hpage
  rw [List.mem_singleton.mp hp] at hpage
  rw [pageAt_unique hpage (held_write _ _ hwf).pageAt]
  refine Or.inr ?_
  rintro i j hlt ⟨lp, hi, hgone⟩ ⟨lp', hj, _, hremains⟩
  have hlength : j < 2 := (List.getElem?_eq_some_iff.mp hj).1
  obtain rfl : i = 0 := by omega
  have hfirst : ∀ lp, (stored liveThenDeleted).linePointers[0]? = some lp →
      ¬(lp.lpFlags = lpDead ∨
        reclaimable 3 lp (stored liveThenDeleted).tuples[0]? = true) := by decide
  exact hfirst lp hi hgone

theorem vacuum_preserves_visible_deleted :
    ∃ count db' rows rows',
      vacuumRelation ⟨1⟩ 3 (tableOf deletedThenLive) = .ok count db' ∧
      scanPages textColumn ⟨⟨5⟩, [⟨4⟩]⟩ none [⟨1⟩] (tableOf deletedThenLive) =
        .ok rows (tableOf deletedThenLive) ∧
      scanPages textColumn ⟨⟨5⟩, [⟨4⟩]⟩ none [⟨1⟩] db' = .ok rows' db' ∧
      rows'.map Prod.snd = rows.map Prod.snd := by
  obtain ⟨count, db', rows, rows', hvacuum, _, hbefore, hafter, hrows, _⟩ :=
    @vacuum_preserves_visible _ ⟨⟨5⟩, [⟨4⟩]⟩ _ _ _ _ _ _ _ (tableOf_registered deletedThenLive)
      (by simp) (tableOf_held (twoVersions_wellFormed _ _ _ _ _ _)) (sound_new (by decide)) 3
      (by decide) (by decide)
  exact ⟨count, db', rows, rows', hvacuum, hbefore, hafter, hrows⟩

end OnePage

end PostgressRs.Executor.VacuumEffects
