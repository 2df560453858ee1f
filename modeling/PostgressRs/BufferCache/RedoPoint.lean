import PostgressRs.BufferCache.Checkpointer

/-!
Whether replay from the redo point of a checkpoint finds every earlier change in
storage.
-/

namespace PostgressRs.BufferCache.RedoPoint

open PostgressRs.BufferCache.Checkpointer
open PostgressRs.BufferCache.PagePool
open PostgressRs.BufferCache.PoolInvariants
open PostgressRs.Lib.ByteBuffer
open PostgressRs.Lib.Procedure
open PostgressRs.Lib.Transitions
open PostgressRs.Storage.PageStore
open PostgressRs.Types
open PostgressRs.Wal.FlushBookkeeping
open PostgressRs.Wal.LogIntegrity
open PostgressRs.Wal.LogRecord
open PostgressRs.Wal.WriteAheadLog

section Pool

variable {σ : Type} [StorageTrait σ] {images : PageId → List Bytes} {s s' : PoolState σ}

/-- What a slot holds, apart from its counters. -/
def frame (buf : Buffer) : PageId × Bytes × Bool := (buf.pageId, buf.data, buf.isDirty)

/-- The pool and the storage have the last image of every page: a dirty slot has
that of its page, and where no slot is dirty the storage has it. -/
structure Tracked (images : PageId → List Bytes) (s : PoolState σ) : Prop where
  sound : Sound s.pool
  consistent : MapConsistent s.pool
  dirty : ∀ i buf, s.pool.buffers[i]? = some buf → buf.isDirty = true →
    s.pool.pageMap.lookup buf.pageId = some i ∧ (images buf.pageId).getLast? = some buf.data
  newest : ∀ p data, (images p).getLast? = some data →
    readPage s.storage p = .ok data ∨ ∃ i buf, s.pool.pageMap.lookup p = some i ∧
      s.pool.buffers[i]? = some buf ∧ buf.isDirty = true

/-- The storage is only written with the last images of pages. -/
def Forward (images : PageId → List Bytes) (s s' : PoolState σ) : Prop :=
  ∀ p, readPage s'.storage p = readPage s.storage p ∨
    ∃ data, (images p).getLast? = some data ∧ readPage s'.storage p = .ok data

theorem forward_of_storage_eq (h : s'.storage = s.storage) : Forward images s s' := by
  intro p
  rw [h]
  exact Or.inl rfl

theorem Forward.trans {s'' : PoolState σ} (h : Forward images s s')
    (h' : Forward images s' s'') : Forward images s s'' := by
  intro p
  rcases h' p with hsame | hlast
  · rw [hsame]
    exact h p
  · exact Or.inr hlast

theorem tracked_new {poolSize : Nat} (hpos : 0 < poolSize) (storage : σ) :
    Tracked (fun _ => []) ⟨BufferPool.new poolSize, storage⟩ := by
  refine ⟨sound_new hpos, mapConsistent_new poolSize, ?_, by simp⟩
  intro i buf hbuf hdirty
  rw [List.eq_of_mem_replicate (List.mem_of_getElem? hbuf)] at hdirty
  cases hdirty

/-- Counters do not matter. -/
theorem Tracked.sameFrames (h : Tracked images s) (hsound : Sound s'.pool)
    (hmap : s'.pool.pageMap = s.pool.pageMap)
    (hframes : s'.pool.buffers.map frame = s.pool.buffers.map frame)
    (hstorage : s'.storage = s.storage) : Tracked images s' := by
  refine ⟨hsound, ?_, ?_, ?_⟩
  · apply mapConsistent_of_held
    intro p i hp
    rw [hmap] at hp
    obtain ⟨⟨buf, hbuf, hpage⟩, _⟩ := h.consistent p i hp
    obtain ⟨buf', hbuf', hframe⟩ := getElem?_of_map_eq hframes.symm hbuf
    exact ⟨buf', hbuf', (congrArg Prod.fst hframe).trans hpage⟩
  · intro i buf' hbuf' hdirty
    obtain ⟨buf, hbuf, hframe⟩ := getElem?_of_map_eq hframes hbuf'
    obtain ⟨hpage, hdata, hflag⟩ : buf.pageId = buf'.pageId ∧ buf.data = buf'.data ∧
        buf.isDirty = buf'.isDirty := by simpa [frame] using hframe
    have hold := h.dirty i buf hbuf (hflag.trans hdirty)
    rw [hpage, hdata] at hold
    rw [hmap]
    exact hold
  · intro p data hlast
    rw [hstorage, hmap]
    rcases h.newest p data hlast with hread | ⟨i, buf, hp, hbuf, hdirty⟩
    · exact Or.inl hread
    · obtain ⟨buf', hbuf', hframe⟩ := getElem?_of_map_eq hframes.symm hbuf
      have hflag : buf'.isDirty = buf.isDirty := congrArg (fun f => f.2.2) hframe
      exact Or.inr ⟨i, buf', hp, hbuf', hflag.trans hdirty⟩

theorem map_frame_of_sansUsage {buffers buffers' : List Buffer}
    (h : buffers'.map sansUsage = buffers.map sansUsage) :
    buffers'.map frame = buffers.map frame := by
  have hcompose : frame = frame ∘ sansUsage := rfl
  rw [hcompose, ← List.map_map, h, List.map_map]

theorem Tracked.getElem?_mapped (h : Tracked images s) {p : PageId} {i : Nat}
    (hp : s.pool.pageMap.lookup p = some i) :
    ∃ buf, s.pool.buffers[i]? = some buf ∧ buf.pageId = p :=
  (h.consistent p i hp).1

theorem sound_set {pool : BufferPool} (h : Sound pool) (i : Nat) (buf : Buffer) :
    Sound { pool with buffers := pool.buffers.set i buf } :=
  ⟨by simp [h.length_eq], h.hand_lt, h.mapped_lt⟩

theorem mapConsistent_set {pool : BufferPool} (h : MapConsistent pool) {i : Nat}
    {buf buf' : Buffer} (hbuf : pool.buffers[i]? = some buf) (hpage : buf'.pageId = buf.pageId) :
    MapConsistent { pool with buffers := pool.buffers.set i buf' } := by
  apply mapConsistent_of_held
  intro p j hp
  obtain ⟨⟨held, hheld, hpageHeld⟩, _⟩ := h p j hp
  have hmap := map_view_set hbuf hpage
  obtain ⟨held', hheld', hsame⟩ := getElem?_of_map_eq hmap.symm hheld
  exact ⟨held', hheld', hsame.trans hpageHeld⟩

/-- A dirty slot is written to storage and is clean from then on. -/
theorem Tracked.clean [LawfulStorage σ] (h : Tracked images s) {i : Nat} {buf : Buffer}
    (hbuf : s.pool.buffers[i]? = some buf) (hdirty : buf.isDirty = true) {storage : σ}
    (hwrite : writePage s.storage buf.pageId buf.data = (.ok (), storage)) :
    Tracked images
        ⟨{ s.pool with buffers := s.pool.buffers.set i { buf with isDirty := false } }, storage⟩ ∧
      Forward images s
        ⟨{ s.pool with buffers := s.pool.buffers.set i { buf with isDirty := false } },
          storage⟩ := by
  obtain ⟨hmapped, hlast⟩ := h.dirty i buf hbuf hdirty
  have hself : readPage storage buf.pageId = .ok buf.data := by
    have hread := LawfulStorage.read_write_self s.storage buf.pageId buf.data
    rwa [hwrite] at hread
  have hother : ∀ q, q ≠ buf.pageId → readPage storage q = readPage s.storage q := by
    intro q hq
    have hread := LawfulStorage.read_write_of_ne s.storage buf.pageId q buf.data hq
    rwa [hwrite] at hread
  refine ⟨⟨sound_set h.sound _ _, mapConsistent_set h.consistent hbuf rfl, ?_, ?_⟩, ?_⟩
  · intro j held hheld hflag
    rw [List.getElem?_set] at hheld
    split at hheld
    · split at hheld
      · cases hheld
        cases hflag
      · cases hheld
    · exact h.dirty j held hheld hflag
  · intro p data hp
    by_cases hpage : p = buf.pageId
    · subst hpage
      rw [hlast] at hp
      cases hp
      exact Or.inl hself
    · rcases h.newest p data hp with hread | ⟨j, held, hj, hheld, hflag⟩
      · exact Or.inl ((hother p hpage).trans hread)
      · refine Or.inr ⟨j, held, hj, ?_, hflag⟩
        have hne : i ≠ j := by
          rintro rfl
          exact hpage ((h.consistent _ _ hmapped).2 p hj)
        rw [List.getElem?_set_ne hne]
        exact hheld
  · intro p
    by_cases hpage : p = buf.pageId
    · subst hpage
      exact Or.inr ⟨buf.data, hlast, hself⟩
    · exact Or.inl (hother p hpage)

/-- A page is unmapped from a slot that is clean. -/
theorem Tracked.erase (h : Tracked images s) {p : PageId} {i : Nat} {buf : Buffer}
    (hp : s.pool.pageMap.lookup p = some i) (hbuf : s.pool.buffers[i]? = some buf)
    (hclean : buf.isDirty = false) :
    Tracked images ⟨{ s.pool with pageMap := s.pool.pageMap.erase p }, s.storage⟩ := by
  have hother : ∀ q j held, s.pool.pageMap.lookup q = some j →
      s.pool.buffers[j]? = some held → held.isDirty = true → q ≠ p := by
    rintro q j held hq hheld hdirty rfl
    rw [hp] at hq
    cases hq
    rw [hbuf] at hheld
    cases hheld
    rw [hclean] at hdirty
    cases hdirty
  refine ⟨sound_erase h.sound p, mapConsistent_erase h.consistent p, ?_, ?_⟩
  · intro j held hheld hdirty
    obtain ⟨hmapped, hlast⟩ := h.dirty j held hheld hdirty
    refine ⟨?_, hlast⟩
    change (s.pool.pageMap.erase p).lookup held.pageId = some j
    rw [AList.lookup_erase_ne (hother _ _ _ hmapped hheld hdirty)]
    exact hmapped
  · intro q data hlast
    rcases h.newest q data hlast with hread | ⟨j, held, hq, hheld, hdirty⟩
    · exact Or.inl hread
    · refine Or.inr ⟨j, held, ?_, hheld, hdirty⟩
      change (s.pool.pageMap.erase p).lookup q = some j
      rw [AList.lookup_erase_ne (hother _ _ _ hq hheld hdirty)]
      exact hq

/-- A page is loaded into a slot that no page is mapped to. -/
theorem Tracked.load (h : Tracked images s) {p : PageId} {slot : Nat}
    (hslot : slot < s.pool.poolSize) (hmiss : s.pool.pageMap.lookup p = none)
    (hfree : ∀ q, s.pool.pageMap.lookup q ≠ some slot) (data : Bytes) :
    Tracked images ⟨PoolInvariants.load s.pool slot p data, s.storage⟩ := by
  have hkept : ∀ q j, s.pool.pageMap.lookup q = some j →
      (s.pool.pageMap.insert p slot).lookup q = some j ∧ slot ≠ j := by
    intro q j hq
    have hne : q ≠ p := by
      rintro rfl
      rw [hmiss] at hq
      cases hq
    refine ⟨?_, ?_⟩
    · rw [AList.lookup_insert_ne hne]
      exact hq
    · rintro rfl
      exact hfree q hq
  refine ⟨sound_load h.sound hslot p data,
    (mapConsistent_load_iff h.sound h.consistent hslot hmiss data).mpr hfree, ?_, ?_⟩
  · intro j held hheld hdirty
    simp only [PoolInvariants.load] at hheld
    rw [List.getElem?_set] at hheld
    split at hheld
    · split at hheld
      · cases hheld
        cases hdirty
      · cases hheld
    · obtain ⟨hmapped, hlast⟩ := h.dirty j held hheld hdirty
      exact ⟨(hkept _ _ hmapped).1, hlast⟩
  · intro q image hlast
    rcases h.newest q image hlast with hread | ⟨j, held, hq, hheld, hdirty⟩
    · exact Or.inl hread
    · obtain ⟨hq', hne⟩ := hkept q j hq
      refine Or.inr ⟨j, held, hq', ?_, hdirty⟩
      simp only [PoolInvariants.load]
      rw [List.getElem?_set_ne hne]
      exact hheld

theorem Tracked.fetch_hit (h : Tracked images s) {p : PageId} {i : Nat}
    (hlookup : s.pool.pageMap.lookup p = some i) (hstep : PoolStep s (.fetchPage p) s') :
    Tracked images s' ∧ Forward images s s' := by
  have hsound := sound_step h.sound hstep
  cases hstep with
  | fetchPage hstate =>
      obtain ⟨buf, hbuf, _⟩ := h.getElem?_mapped hlookup
      rw [fetchPage_hit hlookup] at hstate
      simp only [pinSlot, buffer, bind_apply, hbuf] at hstate
      cases husage : checkedIncr buf.usageCount with
      | none =>
          simp only [husage, orPanic] at hstate
          cases hstate
      | some usageCount =>
          cases hpin : checkedIncr buf.pinCount with
          | none =>
              simp only [husage, hpin, orPanic] at hstate
              cases hstate
          | some pinCount =>
              simp only [husage, hpin, orPanic_some, setBuffer, modify_apply] at hstate
              cases hstate
              exact ⟨h.sameFrames hsound rfl (map_view_set hbuf rfl) rfl,
                forward_of_storage_eq rfl⟩

theorem Tracked.fetch [LawfulStorage σ] (h : Tracked images s) {p : PageId}
    (hstep : PoolStep s (.fetchPage p) s') (hguard : UnmapsVictim s (.fetchPage p)) :
    Tracked images s' ∧ Forward images s s' := by
  rcases step_cases h.sound hstep with ⟨_, hhit⟩ |
    ⟨q, pool, slot, victim, hop, hmiss, hfind, hv, hvictim, hstate, hmissed⟩
  · obtain ⟨i, hlookup⟩ := hhit p rfl
    exact h.fetch_hit hlookup hstep
  · cases hop
    have hswept : Tracked images ⟨pool, s.storage⟩ :=
      h.sameFrames (hv.sound h.sound) hv.pageMap_eq (map_frame_of_sansUsage hv.sameButUsage) rfl
    have hslot : slot < pool.poolSize := by
      rw [hv.poolSize_eq]
      exact hv.slot_lt
    have hmissPool : pool.pageMap.lookup p = none := by
      rw [hv.pageMap_eq]
      exact hmiss
    generalize fetchPage p s = outcome at hstate hmissed
    cases hmissed with
    | unread _ =>
        cases hstate
        exact ⟨hswept, forward_of_storage_eq rfl⟩
    | unwritten _ _ _ hwrite =>
        have hok := LawfulStorage.write_ok s.storage victim.pageId victim.data
        rw [hwrite] at hok
        cases hok
    | @writtenBack data storage _ hdirty _ hwrite =>
        cases hstate
        obtain ⟨hmapped, _⟩ := hswept.dirty slot victim hvictim hdirty
        obtain ⟨hcleaned, hforward⟩ := hswept.clean hvictim hdirty hwrite
        have hlt : slot < pool.buffers.length := (List.getElem?_eq_some_iff.mp hvictim).1
        have herased := hcleaned.erase hmapped (List.getElem?_set_self hlt) rfl
        have hfree : ∀ q, (pool.pageMap.erase victim.pageId).lookup q ≠ some slot := by
          intro q hq
          obtain ⟨hne, hq⟩ := lookup_of_lookup_erase hq
          exact hne ((hswept.consistent _ _ hmapped).2 q hq)
        have hmissErased : (pool.pageMap.erase victim.pageId).lookup p = none := by
          rw [Option.eq_none_iff_forall_ne_some]
          intro i hi
          rw [(lookup_of_lookup_erase hi).2] at hmissPool
          cases hmissPool
        have hloaded := herased.load hslot hmissErased hfree data
        refine ⟨?_, hforward⟩
        simpa only [PoolInvariants.load, List.set_set] using hloaded
    | overwritten hread hclean =>
        cases hstate
        refine ⟨hswept.load hslot hmissPool ?_ _, forward_of_storage_eq rfl⟩
        change ∀ q, pool.pageMap.lookup q ≠ some slot
        rw [hv.pageMap_eq]
        rcases hguard with ⟨i, hi⟩ | ⟨e, herror⟩ | hreuse
        · rw [hmiss] at hi
          cases hi
        · rw [hread] at herror
          cases herror
        · rcases hreuse pool slot hfind with hfree | ⟨buf, hbuf, hdirty, hpin⟩
          · exact hfree
          · obtain ⟨count, hold⟩ := getElem?_of_map_sansUsage hv.sameButUsage hvictim
            rw [hold] at hbuf
            cases hbuf
            exact absurd ⟨hdirty, hpin⟩ hclean

/-- A writer's change is the last image of its page from then on. -/
theorem Tracked.change (h : Tracked images s) {p : PageId} {data : Bytes}
    (hchange : changePage p data s = .ok true s') :
    Tracked (Function.update images p (images p ++ [data])) s' ∧ s'.storage = s.storage := by
  unfold changePage lookupPage at hchange
  rw [bind_ok (read_apply _ _)] at hchange
  cases hlookup : s.pool.pageMap.lookup p with
  | none =>
      rw [hlookup] at hchange
      cases hchange
  | some i =>
      obtain ⟨buf, hbuf, hpage⟩ := h.getElem?_mapped hlookup
      have hlt : i < s.pool.buffers.length := (List.getElem?_eq_some_iff.mp hbuf).1
      simp only [hlookup, buffer, hbuf, bind_apply, setBuffer, modify_apply, unpinPage, lookupPage,
        read_apply, List.getElem?_set_self hlt, List.set_set, Bool.or_true, pure_apply] at hchange
      cases hchange
      refine ⟨⟨sound_set h.sound _ _, mapConsistent_set h.consistent hbuf rfl, ?_, ?_⟩, rfl⟩
      · intro j held hheld hdirty
        by_cases hij : i = j
        · subst hij
          rw [List.getElem?_set_self hlt] at hheld
          cases hheld
          subst hpage
          refine ⟨hlookup, ?_⟩
          simp
        · rw [List.getElem?_set_ne hij] at hheld
          obtain ⟨hmapped, hlast⟩ := h.dirty j held hheld hdirty
          have hne : held.pageId ≠ p := by
            intro heq
            rw [heq, hlookup] at hmapped
            exact hij (Option.some.inj hmapped)
          rw [Function.update_of_ne hne]
          exact ⟨hmapped, hlast⟩
      · intro q image hlast
        by_cases hqp : q = p
        · subst hqp
          exact Or.inr ⟨i, _, hlookup, List.getElem?_set_self hlt, rfl⟩
        · rw [Function.update_of_ne hqp] at hlast
          rcases h.newest q image hlast with hread | ⟨j, held, hq, hheld, hdirty⟩
          · exact Or.inl hread
          · have hij : i ≠ j := by
              rintro rfl
              exact hqp ((h.consistent p i hlookup).2 q hq)
            refine Or.inr ⟨j, held, hq, ?_, hdirty⟩
            rw [List.getElem?_set_ne hij]
            exact hheld

/-- What a flush of some pages leaves: their slots are clean. -/
structure Flushed (images : PageId → List Bytes) (order : List PageId) (s s' : PoolState σ) :
    Prop where
  tracked : Tracked images s'
  forward : Forward images s s'
  map_eq : s'.pool.pageMap = s.pool.pageMap
  dirty_of : ∀ (i : Nat) (buf : Buffer), s'.pool.buffers[i]? = some buf → buf.isDirty = true →
    buf.pageId ∉ order ∧ s.pool.buffers[i]? = some buf

theorem flushPage_dirty [LawfulStorage σ] (h : Tracked images s) {p : PageId} {i : Nat}
    {buf : Buffer} (hlookup : s.pool.pageMap.lookup p = some i)
    (hbuf : s.pool.buffers[i]? = some buf) (hpage : buf.pageId = p)
    (hdirty : buf.isDirty = true) :
    ∃ s', flushPage p s = .ok () s' ∧ Flushed images [p] s s' := by
  subst hpage
  have hok := LawfulStorage.write_ok s.storage buf.pageId buf.data
  rcases hwrite : writePage s.storage buf.pageId buf.data with ⟨result, storage⟩
  rw [hwrite] at hok
  simp only at hok
  subst hok
  obtain ⟨htracked, hforward⟩ := h.clean hbuf hdirty hwrite
  refine ⟨_, ?_, htracked, hforward, rfl, ?_⟩
  · simp only [flushPage, lookupPage, bind_apply, read_apply, hlookup, buffer, hbuf, hdirty,
      if_true, writeStorage, hwrite, setBuffer, modify_apply]
  · intro j held hheld hflag
    obtain ⟨hmapped, _⟩ := htracked.dirty j held hheld hflag
    have hij : i ≠ j := by
      rintro rfl
      rw [List.getElem?_set_self (List.getElem?_eq_some_iff.mp hbuf).1] at hheld
      cases hheld
      cases hflag
    rw [List.getElem?_set_ne hij] at hheld
    refine ⟨?_, hheld⟩
    rw [List.mem_singleton]
    intro heq
    change s.pool.pageMap.lookup held.pageId = some j at hmapped
    rw [heq, hlookup] at hmapped
    exact hij (Option.some.inj hmapped)

theorem flushKeys_tracked [LawfulStorage σ] (h : Tracked images s) (order : List PageId) :
    ∃ count s', flushKeys s.pool.pageMap order s = .ok count s' ∧ Flushed images order s s' := by
  induction order generalizing s with
  | nil => exact ⟨0, s, rfl, h, forward_of_storage_eq rfl, rfl, fun i buf hbuf _ => ⟨by simp, hbuf⟩⟩
  | cons p order ih =>
      cases hlookup : s.pool.pageMap.lookup p with
      | none =>
          obtain ⟨count, s', hrest, hflushed⟩ := ih h
          refine ⟨count, s', ?_, hflushed.tracked, hflushed.forward, hflushed.map_eq, ?_⟩
          · simpa [flushKeys, isDirtySlot, hlookup, bind_apply] using hrest
          · intro i buf hbuf hdirty
            obtain ⟨hnot, hold⟩ := hflushed.dirty_of i buf hbuf hdirty
            refine ⟨?_, hold⟩
            rw [List.mem_cons, not_or]
            refine ⟨?_, hnot⟩
            rintro rfl
            rw [(h.dirty i buf hold hdirty).1] at hlookup
            cases hlookup
      | some i =>
          obtain ⟨buf, hbuf, hpage⟩ := h.getElem?_mapped hlookup
          cases hdirty : buf.isDirty with
          | true =>
              obtain ⟨s₁, hflush, hfirst⟩ := flushPage_dirty h hlookup hbuf hpage hdirty
              obtain ⟨count, s', hrest, hflushed⟩ := ih hfirst.tracked
              rw [hfirst.map_eq] at hrest
              refine ⟨count + 1, s', ?_, hflushed.tracked, hfirst.forward.trans hflushed.forward,
                hflushed.map_eq.trans hfirst.map_eq, ?_⟩
              · simp [flushKeys, isDirtySlot, hlookup, bind_apply, buffer, hbuf, hdirty, hflush,
                  hrest]
              · intro j held hheld hflag
                obtain ⟨hnot, hmid⟩ := hflushed.dirty_of j held hheld hflag
                obtain ⟨hne, hold⟩ := hfirst.dirty_of j held hmid hflag
                refine ⟨?_, hold⟩
                rw [List.mem_cons, not_or]
                exact ⟨fun heq => hne (List.mem_singleton.mpr heq), hnot⟩
          | false =>
              obtain ⟨count, s', hrest, hflushed⟩ := ih h
              refine ⟨count, s', ?_, hflushed.tracked, hflushed.forward, hflushed.map_eq, ?_⟩
              · simpa [flushKeys, isDirtySlot, hlookup, bind_apply, buffer, hbuf, hdirty]
                  using hrest
              · intro j held hheld hflag
                obtain ⟨hnot, hold⟩ := hflushed.dirty_of j held hheld hflag
                refine ⟨?_, hold⟩
                rw [List.mem_cons, not_or]
                refine ⟨?_, hnot⟩
                intro heq
                have hmapped := (h.dirty j held hold hflag).1
                rw [heq, hlookup] at hmapped
                cases hmapped
                rw [hbuf] at hold
                cases hold
                rw [hdirty] at hflag
                cases hflag

/-- After the first phase of a checkpoint the storage has every change. -/
theorem flushDirtyPages_newest [LawfulStorage σ] (h : Tracked images s) {order : List PageId}
    (horder : order.Perm s.pool.pageMap.keys) :
    ∃ count s', flushDirtyPages order s = .ok count s' ∧ Tracked images s' ∧
      Forward images s s' ∧
      ∀ p data, (images p).getLast? = some data → readPage s'.storage p = .ok data := by
  obtain ⟨count, s', hflush, hflushed⟩ := flushKeys_tracked h order
  refine ⟨count, s', ?_, hflushed.tracked, hflushed.forward, ?_⟩
  · unfold flushDirtyPages
    rw [bind_ok (read_apply _ _)]
    exact hflush
  · intro p data hlast
    rcases hflushed.tracked.newest p data hlast with hread | ⟨i, buf, hp, hbuf, hdirty⟩
    · exact hread
    · obtain ⟨hnot, hold⟩ := hflushed.dirty_of i buf hbuf hdirty
      have hmapped := (h.dirty i buf hold hdirty).1
      have hkey : buf.pageId ∈ s.pool.pageMap.keys := by
        rw [← AList.mem_keys, ← AList.lookup_isSome, hmapped]
        rfl
      exact absurd (horder.mem_iff.mpr hkey) hnot

end Pool

section Runs

variable [Bincode] {σ : Type} [StorageTrait σ] {s s' : System σ}

omit [Bincode] in
/-- What is in storage stays there, or is replaced by a later image. -/
theorem present_forward {change : Change} (h : Present s change)
    (himages : ∀ p, s.images p <+: s'.images p) (hforward : Forward s.images s.cache s'.cache) :
    Present s' change := by
  obtain ⟨version, data, hle, hdata, hread⟩ := h
  have hkept : ∀ (i : Nat) (image : Bytes), (s.images change.pageId)[i]? = some image →
      (s'.images change.pageId)[i]? = some image := by
    intro i image himage
    obtain ⟨rest, hrest⟩ := himages change.pageId
    rw [← hrest, List.getElem?_append_left (List.getElem?_eq_some_iff.mp himage).1]
    exact himage
  rcases hforward change.pageId with hsame | ⟨last, hlast, hlastRead⟩
  · exact ⟨version, data, hle, hkept _ _ hdata, hsame.trans hread⟩
  · rw [List.getLast?_eq_getElem?] at hlast
    have hlt := (List.getElem?_eq_some_iff.mp hdata).1
    exact ⟨_, last, by omega, hkept _ _ hlast, hlastRead⟩

/-- The changes are those that `images` has, the LSNs are in order, and every
change is in storage whose record is flushed, or has been logged when a checkpoint
has flushed the pages and not yet the log. -/
structure Safe (s : System σ) : Prop where
  tracked : Tracked s.images s.cache
  unlogged_lt : ∀ writer change, s.unlogged writer = some change →
    change.version < (s.images change.pageId).length
  logged_lt : ∀ lsn change, (lsn, change) ∈ s.logged →
    change.version < (s.images change.pageId).length
  flushed_le : s.wal.flushedLsn ≤ s.wal.currentLsn
  redo_le : s.redoLsn ≤ s.wal.flushedLsn
  flushed : ∀ lsn change, (lsn, change) ∈ s.logged → lsn < s.wal.flushedLsn → Present s change
  flushing : ∀ checkpointer, s.phase checkpointer = .pagesFlushed →
    ∀ lsn change, (lsn, change) ∈ s.logged → Present s change

omit [Bincode] in
theorem Safe.redoSafe (h : Safe s) : RedoSafe s := by
  intro lsn change hlogged hlt
  exact h.flushed lsn change hlogged (Nat.lt_of_lt_of_le hlt h.redo_le)

omit [Bincode] in
theorem safe_new {poolSize : Nat} (hpos : 0 < poolSize) (storage : σ) (segmentSize : UInt32) :
    Safe (System.new poolSize storage segmentSize) := by
  refine ⟨tracked_new hpos storage, ?_, ?_, Nat.le_refl _, Nat.le_refl _, ?_, ?_⟩
  · intro writer change h
    cases h
  · intro lsn change h
    cases h
  · intro lsn change h
    cases h
  · intro checkpointer h
    cases h

omit [Bincode] in
/-- Pages move between the pool and the storage. -/
theorem Safe.withCache (h : Safe s) {cache : PoolState σ} (htracked : Tracked s.images cache)
    (hforward : Forward s.images s.cache cache) : Safe { s with cache := cache } := by
  have hpresent : ∀ change, Present s change → Present { s with cache := cache } change :=
    fun change hchange => present_forward hchange (fun p => List.prefix_refl _) hforward
  exact ⟨htracked, h.unlogged_lt, h.logged_lt, h.flushed_le, h.redo_le,
    fun lsn change hlogged hlt => hpresent _ (h.flushed lsn change hlogged hlt),
    fun c hphase lsn change hlogged => hpresent _ (h.flushing c hphase lsn change hlogged)⟩

omit [Bincode] in
/-- The log grows and a writer is done. -/
theorem Safe.withLog (h : Safe s) {wal : WAL} (hextends : Extends s.wal wal) (writer : Nat) :
    Safe { s with wal := wal, unlogged := Function.update s.unlogged writer none } := by
  refine ⟨h.tracked, ?_, h.logged_lt, ?_, ?_, ?_, h.flushing⟩
  · intro writer' change hsome
    by_cases hw : writer' = writer
    · simp only [hw, Function.update_self] at hsome
      cases hsome
    · simp only [Function.update_of_ne hw] at hsome
      exact h.unlogged_lt writer' change hsome
  · change wal.flushedLsn ≤ wal.currentLsn
    rw [hextends.flushed_eq]
    exact Nat.le_trans h.flushed_le hextends.current_le
  · change s.redoLsn ≤ wal.flushedLsn
    rw [hextends.flushed_eq]
    exact h.redo_le
  · intro lsn change hlogged hlt
    change lsn < wal.flushedLsn at hlt
    rw [hextends.flushed_eq] at hlt
    exact h.flushed lsn change hlogged hlt

omit [Bincode] in
theorem phase_update_eq {phase : Nat → Phase} {c k : Nat} {new : Phase}
    (h : Function.update phase c new k = .pagesFlushed) (hnew : new ≠ .pagesFlushed) :
    phase k = .pagesFlushed := by
  by_cases hk : k = c
  · rw [hk, Function.update_self] at h
    exact absurd h hnew
  · rw [Function.update_of_ne hk] at h
    exact h

omit [Bincode] in
/-- A writer changes a page in the pool. -/
theorem Safe.changed (h : Safe s) (writer : Nat) {p : PageId} {data : Bytes}
    {cache : PoolState σ} (hchange : changePage p data s.cache = .ok true cache) :
    Safe
      { s with
        cache := cache
        unlogged := Function.update s.unlogged writer (some ⟨p, (s.images p).length⟩)
        images := Function.update s.images p (s.images p ++ [data]) } := by
  obtain ⟨htracked, hstorage⟩ := h.tracked.change hchange
  have himages : ∀ q, s.images q <+: Function.update s.images p (s.images p ++ [data]) q := by
    intro q
    by_cases hq : q = p
    · subst hq
      rw [Function.update_self]
      exact List.prefix_append _ _
    · simpa only [Function.update_of_ne hq] using List.prefix_refl (s.images q)
  have hpresent : ∀ change, Present s change → Present
      { s with
        cache := cache
        unlogged := Function.update s.unlogged writer (some ⟨p, (s.images p).length⟩)
        images := Function.update s.images p (s.images p ++ [data]) } change :=
    fun change hchange => present_forward hchange himages (forward_of_storage_eq hstorage)
  refine ⟨htracked, ?_, ?_, h.flushed_le, h.redo_le, ?_, ?_⟩
  · intro writer' change hunlogged
    by_cases hw : writer' = writer
    · subst hw
      simp only [Function.update_self] at hunlogged
      cases hunlogged
      simp
    · simp only [Function.update_of_ne hw] at hunlogged
      exact Nat.lt_of_lt_of_le (h.unlogged_lt writer' change hunlogged)
        (himages change.pageId).length_le
  · intro lsn change hlogged
    exact Nat.lt_of_lt_of_le (h.logged_lt lsn change hlogged) (himages change.pageId).length_le
  · intro lsn change hlogged hlt
    exact hpresent _ (h.flushed lsn change hlogged hlt)
  · intro c hphase lsn change hlogged
    exact hpresent _ (h.flushing c hphase lsn change hlogged)

/-- A writer appends the record of its change. -/
theorem Safe.appended (h : Safe s) {writer lsn : Nat} {change : Change} {record : WALRecord}
    {wal : WAL} (hunlogged : s.unlogged writer = some change)
    (happend : append record s.wal = .ok lsn wal)
    (hguard : (∃ checkpointer, s.phase checkpointer = .pagesFlushed) → Present s change) :
    Safe
      { s with
        wal := wal
        unlogged := Function.update s.unlogged writer none
        logged := (lsn, change) :: s.logged } := by
  obtain ⟨data, _, hle, hcurrent, hflushed⟩ := append_extends happend
  have hextends : Extends s.wal wal := ⟨by omega, hflushed⟩
  have hsafe := h.withLog hextends writer
  have hbelow := h.flushed_le
  refine ⟨h.tracked, hsafe.unlogged_lt, ?_, hsafe.flushed_le, hsafe.redo_le, ?_, ?_⟩
  · intro lsn' change' hlogged
    rcases List.mem_cons.mp hlogged with heq | hlogged
    · cases heq
      exact h.unlogged_lt writer change hunlogged
    · exact h.logged_lt lsn' change' hlogged
  · intro lsn' change' hlogged hlt
    rcases List.mem_cons.mp hlogged with heq | hlogged
    · cases heq
      change lsn < wal.flushedLsn at hlt
      omega
    · exact hsafe.flushed lsn' change' hlogged hlt
  · intro c hphase lsn' change' hlogged
    rcases List.mem_cons.mp hlogged with heq | hlogged
    · cases heq
      exact hguard ⟨c, hphase⟩
    · exact h.flushing c hphase lsn' change' hlogged

theorem safe_step [LawfulStorage σ] {event : Event} (h : Safe s) (hstep : Step s event s')
    (hguard : LogsBehindFlush s event) : Safe s' := by
  cases hstep with
  | fetch hfetch =>
      obtain ⟨htracked, hforward⟩ := h.tracked.fetch hfetch hguard
      exact h.withCache htracked hforward
  | @change writer p data cache hidle hchange => exact h.changed writer hchange
  | @append writer change record lsn wal hunlogged hpage hlog =>
      cases hlog with
      | appended happend =>
          exact h.appended hunlogged happend fun hflushing => hguard hflushing change hunlogged
  | @appendFailed writer change record wal hunlogged hpage hlog =>
      apply h.withLog
      rcases logStep_cases hlog with ⟨_, _, _, hextends⟩ | ⟨hevent, _⟩ | ⟨_, hevent, _⟩
      · exact hextends
      · rcases hevent with hevent | ⟨_, hevent, _⟩
        · cases hevent
        · cases hevent
      · cases hevent
  | @flushPages c count order cache hidle horder hflush =>
      obtain ⟨count', cache', hok, htracked, hforward, hnewest⟩ :=
        flushDirtyPages_newest h.tracked horder
      rw [hok] at hflush
      cases hflush
      have hsafe := h.withCache htracked hforward
      refine ⟨htracked, h.unlogged_lt, h.logged_lt, h.flushed_le, h.redo_le, hsafe.flushed, ?_⟩
      intro k _ lsn change hlogged
      have hlt := h.logged_lt lsn change hlogged
      have hlast : (s.images change.pageId)[(s.images change.pageId).length - 1]? =
          some ((s.images change.pageId)[(s.images change.pageId).length - 1]) :=
        List.getElem?_eq_getElem _
      refine ⟨_, _, by omega, hlast, hnewest _ _ ?_⟩
      rw [List.getLast?_eq_getElem?]
      exact hlast
  | @flushPagesFailed c order e cache hidle horder hflush =>
      obtain ⟨count, cache', hok, _⟩ := flushDirtyPages_newest h.tracked horder
      rw [hok] at hflush
      cases hflush
  | @flushWal c wal hphase hlog =>
      cases hlog with
      | flushed hflush =>
          cases hflush
          refine ⟨h.tracked, h.unlogged_lt, h.logged_lt, Nat.le_refl _,
            Nat.le_trans h.redo_le h.flushed_le, ?_, ?_⟩
          · intro lsn change hlogged _
            exact h.flushing c hphase lsn change hlogged
          · intro k hk
            exact h.flushing k (phase_update_eq hk (by decide))
  | @recordRedo c lsn wal hphase hread =>
      cases hread
      refine ⟨h.tracked, h.unlogged_lt, h.logged_lt, h.flushed_le, Nat.le_refl _, h.flushed, ?_⟩
      intro k hk
      exact h.flushing k (phase_update_eq hk (by decide))

/-- In every run of checkpoints and writers in which the condition is met, what was
logged below the redo point is in storage. -/
theorem redo_safe [LawfulStorage σ] {poolSize : Nat} (hpos : 0 < poolSize) (storage : σ)
    (segmentSize : UInt32) {trace : List (Transition (System σ) Event)} {s : System σ}
    (hrun : Run Step (System.new poolSize storage segmentSize) trace s)
    (hguard : ∀ tr ∈ trace, LogsBehindFlush tr.source tr.label) :
    ∀ tr ∈ trace, RedoSafe tr.source ∧ RedoSafe tr.target := by
  have hsafe := Run.invariant Safe LogsBehindFlush (fun s event s' h hg hs => safe_step h hs hg)
    hrun (safe_new hpos storage segmentSize) hguard
  intro tr htr
  exact ⟨(hsafe.2 tr htr).1.redoSafe, (hsafe.2 tr htr).2.redoSafe⟩

end Runs

section Examples

/-- A pool of one slot over an empty in-memory store. -/
def oneSlot : System EphemeralStorage := System.new 1 EphemeralStorage.new 8192

def onesPage : Bytes := List.replicate 8192 1

def firstRecord : WALRecord :=
  .delete ⟨1⟩ ⟨1⟩
    { slots := [], data := [], xmin := 1, xmax := 2, cmin := 0, cmax := 0, xvac := 0 }

theorem append_firstRecord :
    ∃ wal, append firstRecord (WAL.new 8192) = .ok 0 wal ∧ 0 < wal.currentLsn := by
  have hsize : (encodeRecord firstRecord).length ≤ (8192 : UInt32).toNat := by decide
  obtain ⟨page, page', happend, _, _⟩ :=
    @append_eq _ (WAL.new 8192) firstRecord _ (by decide) rfl hsize 0 rfl (by decide)
  refine ⟨_, happend, ?_⟩
  change 0 < 0 + (encodeRecord firstRecord).length
  decide

/-- A change that is made and logged between the first two phases of a checkpoint. -/
theorem change_lost :
    ∃ trace s, Run Step oneSlot trace s ∧
      trace.map Transition.label =
        [.fetch ⟨1⟩, .flushPages 0 [⟨1⟩], .change 0 ⟨1⟩ onesPage,
          .append 0 firstRecord (some 0), .flushWal 0, .recordRedo 0] ∧
      ¬RedoSafe s := by
  obtain ⟨wal, happend, hpos⟩ := append_firstRecord
  refine ⟨_, _, Run.cons (Step.fetch (PoolStep.fetchPage rfl)) <|
    Run.cons (@Step.flushPages _ _ _ _ 0 _ [⟨1⟩] _ rfl (List.Perm.refl _) rfl) <|
    Run.cons (@Step.change _ _ _ _ 0 ⟨1⟩ onesPage _ rfl rfl) <|
    Run.cons (Step.append rfl rfl (LogStep.appended happend)) <|
    Run.cons (Step.flushWal rfl (LogStep.flushed rfl)) <|
    Run.cons (@Step.recordRedo _ _ _ _ 0 _ _ rfl rfl) <| Run.nil _, rfl, ?_⟩
  intro h
  obtain ⟨version, data, _, hdata, hread⟩ := h 0 ⟨⟨1⟩, 0⟩ List.mem_cons_self hpos
  have himage : data ∈ [onesPage] := List.mem_of_getElem? hdata
  have hzero : (Except.ok zeroPage : Except String Bytes) = .ok data := hread
  cases hzero
  have hfirst : (0 : UInt8) ∈ zeroPage := List.mem_replicate.mpr ⟨by decide, rfl⟩
  rw [List.mem_singleton.mp himage, onesPage, List.mem_replicate] at hfirst
  exact absurd hfirst.2 (by decide)

theorem redo_safe_logged :
    ∃ trace s, Run Step oneSlot trace s ∧
      trace.map Transition.label =
        [.fetch ⟨1⟩, .change 0 ⟨1⟩ onesPage, .append 0 firstRecord (some 0),
          .flushPages 0 [⟨1⟩], .flushWal 0, .recordRedo 0] ∧
      0 < s.redoLsn ∧ RedoSafe s := by
  obtain ⟨wal, happend, hpos⟩ := append_firstRecord
  have hrun := Run.cons (@Step.fetch _ _ _ oneSlot ⟨1⟩ _ (PoolStep.fetchPage rfl)) <|
    Run.cons (@Step.change _ _ _ _ 0 ⟨1⟩ onesPage _ rfl rfl) <|
    Run.cons (@Step.append _ _ _ _ 0 ⟨⟨1⟩, 0⟩ firstRecord 0 wal rfl rfl
      (LogStep.appended happend)) <|
    Run.cons (@Step.flushPages _ _ _ _ 0 _ [⟨1⟩] _ rfl (List.Perm.refl _) rfl) <|
    Run.cons (@Step.flushWal _ _ _ _ 0 _ rfl (LogStep.flushed rfl)) <|
    Run.cons (@Step.recordRedo _ _ _ _ 0 _ _ rfl rfl) <| Run.nil _
  refine ⟨_, _, hrun, rfl, hpos, ?_⟩
  refine (redo_safe Nat.one_pos EphemeralStorage.new 8192 hrun ?_ _
    (List.mem_cons_of_mem _ <| List.mem_cons_of_mem _ <| List.mem_cons_of_mem _ <|
      List.mem_cons_of_mem _ <| List.mem_cons_of_mem _ List.mem_cons_self)).2
  intro tr htr
  simp only [List.mem_cons, List.not_mem_nil, or_false] at htr
  rcases htr with rfl | rfl | rfl | rfl | rfl | rfl
  · refine Or.inr (Or.inr fun _ _ _ => Or.inl ?_)
    intro q hq
    simp [oneSlot, System.new, BufferPool.new] at hq
  · exact trivial
  · rintro ⟨c, hc⟩
    cases hc
  · exact trivial
  · exact trivial
  · exact trivial

end Examples

end PostgressRs.BufferCache.RedoPoint
