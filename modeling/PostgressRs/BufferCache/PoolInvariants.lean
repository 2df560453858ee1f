import PostgressRs.BufferCache.PagePool
import PostgressRs.Lib.Transitions

/-!
Runs of the buffer pool: which fetches keep the page map consistent, and which
ones respect pins and dirty data.
-/

namespace PostgressRs.BufferCache.PoolInvariants

open PostgressRs.BufferCache.PagePool
open PostgressRs.Lib.ByteBuffer
open PostgressRs.Lib.Procedure
open PostgressRs.Lib.Transitions
open PostgressRs.Storage.PageStore
open PostgressRs.Types

/-- Everything in a buffer that the clock sweep leaves alone. -/
def sansUsage (buf : Buffer) : Buffer := { buf with usageCount := 0 }

/-- Two pools that look the same under `view` have slots that look the same. -/
theorem getElem?_of_map_eq {γ : Type} {view : Buffer → γ} {buffers buffers' : List Buffer}
    {i : Nat} {buf : Buffer} (h : buffers'.map view = buffers.map view)
    (hbuf : buffers'[i]? = some buf) :
    ∃ buf', buffers[i]? = some buf' ∧ view buf' = view buf := by
  have hi : (buffers'.map view)[i]? = (buffers.map view)[i]? := by rw [h]
  rw [List.getElem?_map, List.getElem?_map, hbuf] at hi
  exact Option.map_eq_some_iff.mp hi.symm

/-- Setting a slot to a buffer that looks the same. -/
theorem map_view_set {γ : Type} {view : Buffer → γ} {buffers : List Buffer} {idx : Nat}
    {buf buf' : Buffer} (hbuf : buffers[idx]? = some buf) (hsame : view buf' = view buf) :
    (buffers.set idx buf').map view = buffers.map view := by
  apply List.ext_getElem?
  intro i
  rw [List.getElem?_map, List.getElem?_map, List.getElem?_set]
  split
  · rename_i heq
    subst heq
    rw [if_pos (List.getElem?_eq_some_iff.mp hbuf).1, hbuf, Option.map_some, Option.map_some,
      hsame]
  · rfl

theorem getElem?_of_map_sansUsage {buffers buffers' : List Buffer} {i : Nat} {buf : Buffer}
    (h : buffers'.map sansUsage = buffers.map sansUsage) (hbuf : buffers'[i]? = some buf) :
    ∃ count, buffers[i]? = some { buf with usageCount := count } := by
  obtain ⟨buf', hbuf', heq⟩ := getElem?_of_map_eq h hbuf
  refine ⟨buf'.usageCount, ?_⟩
  rw [hbuf']
  obtain ⟨pageId, data, isDirty, usageCount, pinCount⟩ := buf
  obtain ⟨pageId', data', isDirty', usageCount', pinCount'⟩ := buf'
  simp only [sansUsage, Buffer.mk.injEq] at heq
  obtain ⟨rfl, rfl, rfl, -, rfl⟩ := heq
  rfl

/-- The sweep only lowers usage counts, and the slot it stops at is unpinned. -/
theorem clockSweep_spec (poolSize rounds : Nat) (buffers : List Buffer) (hand : Nat)
    (hlen : buffers.length = poolSize) (hhand : hand < poolSize) :
    ∃ buffers' swept, BufferPool.clockSweep poolSize rounds buffers hand =
        some (buffers', swept) ∧
      buffers'.map sansUsage = buffers.map sansUsage ∧
      ∀ victim, swept = some victim →
        ∃ buf, buffers'[victim]? = some buf ∧ buf.pinCount = 0 := by
  induction rounds generalizing buffers hand with
  | zero => exact ⟨buffers, none, rfl, rfl, by simp⟩
  | succ rounds ih =>
      have hnext : (hand + 1) % poolSize < poolSize := Nat.mod_lt _ (by omega)
      obtain ⟨buf, hbuf⟩ : ∃ buf, buffers[hand]? = some buf :=
        ⟨buffers[hand], List.getElem?_eq_getElem (by omega)⟩
      simp only [BufferPool.clockSweep, hbuf, Option.bind_eq_bind, Option.bind_some]
      by_cases hpin : buf.pinCount = 0
      · rw [if_pos hpin]
        by_cases husage : 0 < buf.usageCount
        · rw [if_pos husage]
          obtain ⟨buffers', swept, heq, hsame, hvictim⟩ :=
            ih (buffers.set hand { buf with usageCount := buf.usageCount - 1 })
              ((hand + 1) % poolSize) (by simpa using hlen) hnext
          refine ⟨buffers', swept, heq, ?_, hvictim⟩
          rw [hsame]
          exact map_view_set hbuf rfl
        · rw [if_neg husage]
          refine ⟨buffers, some hand, rfl, rfl, ?_⟩
          intro victim hvictim
          cases hvictim
          exact ⟨buf, hbuf, hpin⟩
      · rw [if_neg hpin]
        exact ih buffers ((hand + 1) % poolSize) hlen hnext

/-- The parts of a pool that index each other stay in range. -/
structure Sound (pool : BufferPool) : Prop where
  length_eq : pool.buffers.length = pool.poolSize
  hand_lt : pool.nextVictim < pool.poolSize
  mapped_lt : ∀ p i, pool.pageMap.lookup p = some i → i < pool.poolSize

theorem Sound.buffer {pool : BufferPool} (h : Sound pool) {i : Nat} (hi : i < pool.poolSize) :
    ∃ buf, pool.buffers[i]? = some buf := by
  have hlt : i < pool.buffers.length := by rw [h.length_eq]; exact hi
  exact ⟨pool.buffers[i], List.getElem?_eq_getElem hlt⟩

/-- What `find_victim` does to a pool: the sweep, a new hand, and a slot that is
unpinned if any slot is. -/
structure VictimFound (pool pool' : BufferPool) (slot : Nat) : Prop where
  poolSize_eq : pool'.poolSize = pool.poolSize
  pageMap_eq : pool'.pageMap = pool.pageMap
  sameButUsage : pool'.buffers.map sansUsage = pool.buffers.map sansUsage
  hand_lt : pool'.nextVictim < pool'.poolSize
  slot_lt : slot < pool.poolSize
  unpinned : (∃ buf ∈ pool.buffers, buf.pinCount = 0) →
    ∃ buf, pool.buffers[slot]? = some buf ∧ buf.pinCount = 0
  fallThrough : (∀ buf ∈ pool.buffers, buf.pinCount ≠ 0) → slot = 0

theorem findVictim_spec {pool : BufferPool} (hbuffers : pool.buffers.length = pool.poolSize)
    (hnext : pool.nextVictim < pool.poolSize) :
    ∃ pool' slot, pool.findVictim = some (pool', slot) ∧ VictimFound pool pool' slot := by
  obtain ⟨buffers', swept, hsweep, hsame, hvictim⟩ :=
    clockSweep_spec pool.poolSize (pool.poolSize * 2) pool.buffers pool.nextVictim hbuffers hnext
  have hpos : 0 < pool.poolSize := Nat.zero_lt_of_lt hnext
  have hlen : buffers'.length = pool.poolSize := by
    have heq := congrArg List.length hsame
    rw [List.length_map, List.length_map, hbuffers] at heq
    exact heq
  have hmem : ∀ buf ∈ pool.buffers, ∃ buf' ∈ buffers', buf'.pinCount = buf.pinCount := by
    intro buf hbuf
    obtain ⟨i, hi⟩ := List.mem_iff_getElem?.mp hbuf
    obtain ⟨count, hcount⟩ := getElem?_of_map_sansUsage hsame.symm hi
    exact ⟨_, List.mem_of_getElem? hcount, rfl⟩
  -- a slot met unpinned is unpinned in the pool before the sweep as well
  have hpicked : ∀ slot hand, (∃ buf, buffers'[slot]? = some buf ∧ buf.pinCount = 0) →
      hand < pool.poolSize →
      VictimFound pool { pool with buffers := buffers', nextVictim := hand } slot := by
    rintro slot hand ⟨buf, hbuf, hpin⟩ hhand
    obtain ⟨count, hcount⟩ := getElem?_of_map_sansUsage hsame hbuf
    refine ⟨rfl, rfl, hsame, hhand, ?_, fun _ => ⟨_, hcount, hpin⟩, ?_⟩
    · rw [← hlen]
      exact (List.getElem?_eq_some_iff.mp hbuf).1
    · intro hpinned
      have hne := hpinned _ (List.mem_of_getElem? hcount)
      exact absurd hpin hne
  cases swept with
  | some victim =>
      refine ⟨{ pool with buffers := buffers', nextVictim := (victim + 1) % pool.poolSize },
        victim, ?_, hpicked _ _ (hvictim victim rfl) (Nat.mod_lt _ hpos)⟩
      simp [BufferPool.findVictim, hsweep]
  | none =>
      cases hfind : buffers'.findIdx? fun buf => buf.pinCount = 0 with
      | some i =>
          obtain ⟨hlt, hpin, -⟩ := List.findIdx?_eq_some_iff_getElem.mp hfind
          have hbuf : ∃ buf, buffers'[i]? = some buf ∧ buf.pinCount = 0 :=
            ⟨buffers'[i], List.getElem?_eq_getElem hlt, by simpa using hpin⟩
          refine ⟨{ pool with buffers := buffers', nextVictim := (i + 1) % pool.poolSize },
            i, ?_, hpicked _ _ hbuf (Nat.mod_lt _ hpos)⟩
          simp [BufferPool.findVictim, hsweep, hfind]
      | none =>
          have hpinned : ∀ buf ∈ buffers', buf.pinCount ≠ 0 := by
            intro buf hbuf
            simpa using List.findIdx?_eq_none_iff.mp hfind buf hbuf
          refine ⟨{ pool with buffers := buffers' }, 0, ?_, ?_⟩
          · simp [BufferPool.findVictim, hsweep, hfind]
          · refine ⟨rfl, rfl, hsame, hnext, hpos, ?_, fun _ => rfl⟩
            rintro ⟨buf, hbuf, hpin⟩
            obtain ⟨buf', hbuf', heq⟩ := hmem buf hbuf
            exact absurd (heq.trans hpin) (hpinned buf' hbuf')

theorem VictimFound.sound {pool pool' : BufferPool} {slot : Nat}
    (hv : VictimFound pool pool' slot) (h : Sound pool) : Sound pool' := by
  refine ⟨?_, hv.hand_lt, ?_⟩
  · have heq := congrArg List.length hv.sameButUsage
    rw [List.length_map, List.length_map] at heq
    rw [heq, h.length_eq, hv.poolSize_eq]
  · intro p i hi
    rw [hv.pageMap_eq] at hi
    rw [hv.poolSize_eq]
    exact h.mapped_lt p i hi

section Fetch

variable {σ : Type} [StorageTrait σ]

/-- The pool after page `p` with bytes `data` was put into `slot`. -/
def load (pool : BufferPool) (slot : Nat) (p : PageId) (data : Bytes) : BufferPool where
  poolSize := pool.poolSize
  buffers :=
    pool.buffers.set slot
      { pageId := p
        data := data
        isDirty := false
        usageCount := 1
        pinCount := 1 }
  pageMap := pool.pageMap.insert p slot
  nextVictim := pool.nextVictim

/-- The outcomes of a fetch that misses. -/
inductive Missed (s : PoolState σ) (p : PageId) (pool : BufferPool) (slot : Nat)
    (victim : Buffer) : Outcome (PoolState σ) Nat → Prop
  | unread {e : String} : readPage s.storage p = .error e →
      Missed s p pool slot victim (.err e ⟨pool, s.storage⟩)
  | unwritten {data : Bytes} {e : String} {storage : σ} :
      readPage s.storage p = .ok data → victim.isDirty = true → victim.pinCount = 0 →
      writePage s.storage victim.pageId victim.data = (.error e, storage) →
      Missed s p pool slot victim (.err e ⟨pool, storage⟩)
  | writtenBack {data : Bytes} {storage : σ} :
      readPage s.storage p = .ok data → victim.isDirty = true → victim.pinCount = 0 →
      writePage s.storage victim.pageId victim.data = (.ok (), storage) →
      Missed s p pool slot victim
        (.ok slot
          ⟨load { pool with pageMap := pool.pageMap.erase victim.pageId } slot p data, storage⟩)
  | overwritten {data : Bytes} :
      readPage s.storage p = .ok data → ¬(victim.isDirty = true ∧ victim.pinCount = 0) →
      Missed s p pool slot victim (.ok slot ⟨load pool slot p data, s.storage⟩)

theorem fetchPage_missed {s : PoolState σ} {p : PageId} (h : Sound s.pool)
    (hmiss : s.pool.pageMap.lookup p = none) :
    ∃ pool slot victim, s.pool.findVictim = some (pool, slot) ∧
      VictimFound s.pool pool slot ∧ pool.buffers[slot]? = some victim ∧
      Missed s p pool slot victim (fetchPage p s) := by
  obtain ⟨pool, slot, hfind, hv⟩ := findVictim_spec h.length_eq h.hand_lt
  have hslot : slot < pool.poolSize := by
    rw [hv.poolSize_eq]
    exact hv.slot_lt
  obtain ⟨victim, hvictim⟩ := (hv.sound h).buffer hslot
  refine ⟨pool, slot, victim, hfind, hv, hvictim, ?_⟩
  have htake : takeVictim s = .ok slot ⟨pool, s.storage⟩ := by
    simp [takeVictim, hfind]
  have hbuffer : ∀ storage : σ, buffer slot ⟨pool, storage⟩ = .ok victim ⟨pool, storage⟩ := by
    intro storage
    simp [buffer, hvictim]
  simp only [fetchPage, lookupPage, bind_apply, read_apply, hmiss, htake]
  cases hread : readPage s.storage p with
  | error e =>
      simp only [readStorage, hread]
      exact Missed.unread hread
  | ok data =>
      simp only [readStorage, hread, hbuffer]
      by_cases hdirty : victim.isDirty = true ∧ victim.pinCount = 0
      · simp only [if_pos hdirty, bind_apply]
        rcases hwrite : writePage s.storage victim.pageId victim.data with ⟨e | _, storage⟩
        · simp only [writeStorage, hwrite]
          exact Missed.unwritten hread hdirty.1 hdirty.2 hwrite
        · simp only [writeStorage, hwrite]
          exact Missed.writtenBack hread hdirty.1 hdirty.2 hwrite
      · simp only [if_neg hdirty]
        exact Missed.overwritten hread hdirty

end Fetch

section Retained

variable {σ : Type}

/-- The page held by a slot. -/
def contents (buf : Buffer) : PageId × Bytes := (buf.pageId, buf.data)

/-- No slot changed its page and no page was newly mapped. -/
structure Retains (s s' : PoolState σ) : Prop where
  poolSize_eq : s'.pool.poolSize = s.pool.poolSize
  hand_eq : s'.pool.nextVictim = s.pool.nextVictim
  contents_eq : s'.pool.buffers.map contents = s.pool.buffers.map contents
  lookup_of : ∀ q i, s'.pool.pageMap.lookup q = some i → s.pool.pageMap.lookup q = some i

instance : Std.Refl (@Retains σ) where
  refl _ := ⟨rfl, rfl, rfl, fun _ _ h => h⟩

instance : IsTrans (PoolState σ) Retains where
  trans _ _ _ h h' :=
    ⟨h'.poolSize_eq.trans h.poolSize_eq, h'.hand_eq.trans h.hand_eq,
      h'.contents_eq.trans h.contents_eq, fun q i hq => h.lookup_of q i (h'.lookup_of q i hq)⟩

theorem retains_setBuffer {s : PoolState σ} {idx : Nat} {buf buf' : Buffer}
    (hbuf : s.pool.buffers[idx]? = some buf) (hsame : contents buf' = contents buf) (storage : σ) :
    Retains s ⟨{ s.pool with buffers := s.pool.buffers.set idx buf' }, storage⟩ :=
  ⟨rfl, rfl, map_view_set hbuf hsame, fun _ _ h => h⟩

theorem keeps_buffer_bind {α : Type} {idx : Nat} {f : Buffer → Proc (PoolState σ) α}
    (hf : ∀ s buf, s.pool.buffers[idx]? = some buf →
      ∀ s', (f buf s).state? = some s' → Retains s s') :
    Keeps Retains (buffer idx >>= f) := by
  intro s s' h
  rw [bind_apply] at h
  cases hbuf : s.pool.buffers[idx]? with
  | none =>
      simp only [buffer, hbuf] at h
      cases h
  | some buf =>
      simp only [buffer, hbuf] at h
      exact hf s buf hbuf s' h

theorem keeps_lookup_bind {α : Type} {p : PageId} {f : Option Nat → Proc (PoolState σ) α}
    (hf : ∀ found, Keeps Retains (f found)) : Keeps Retains (lookupPage p >>= f) :=
  keeps_bind (keeps_read _) hf

theorem keeps_pinSlot (idx : Nat) : Keeps Retains (pinSlot idx : Proc (PoolState σ) Unit) := by
  apply keeps_buffer_bind
  intro s buf hbuf s' h
  rw [bind_apply] at h
  cases husage : checkedIncr buf.usageCount with
  | none =>
      rw [husage] at h
      cases h
  | some usageCount =>
      cases hpin : checkedIncr buf.pinCount with
      | none =>
          rw [husage, hpin] at h
          cases h
      | some pinCount =>
          rw [husage, hpin] at h
          cases h
          exact retains_setBuffer hbuf (by rfl) s.storage

theorem keeps_pinPage (p : PageId) :
    Keeps Retains (pinPage p : Proc (PoolState σ) (Option Nat)) := by
  apply keeps_lookup_bind
  rintro (_ | idx)
  · exact keeps_pure none
  · exact keeps_bind (keeps_pinSlot idx) fun _ => keeps_pure _

theorem keeps_unpinPage (p : PageId) (isDirty : Bool) :
    Keeps Retains (unpinPage p isDirty : Proc (PoolState σ) Unit) := by
  apply keeps_lookup_bind
  rintro (_ | idx)
  · exact keeps_pure ()
  · apply keeps_buffer_bind
    intro s buf hbuf s' h
    cases h
    exact retains_setBuffer hbuf (by rfl) s.storage

theorem keeps_invalidatePage (p : PageId) :
    Keeps Retains (invalidatePage p : Proc (PoolState σ) Unit) := by
  apply keeps_lookup_bind
  rintro (_ | idx)
  · exact keeps_pure ()
  · refine keeps_bind (keeps_modify ?_) fun _ => keeps_buffer_bind ?_
    · intro s
      refine ⟨rfl, rfl, rfl, ?_⟩
      intro q i hq
      by_cases hqp : q = p
      · subst hqp
        rw [AList.lookup_erase] at hq
        cases hq
      · rwa [AList.lookup_erase_ne hqp] at hq
    · intro s buf hbuf s' h
      cases h
      exact retains_setBuffer hbuf (by rfl) s.storage

theorem Retains.buffer {s s' : PoolState σ} (h : Retains s s') {i : Nat} {buf : Buffer}
    (hbuf : s.pool.buffers[i]? = some buf) :
    ∃ buf', s'.pool.buffers[i]? = some buf' ∧ contents buf' = contents buf :=
  getElem?_of_map_eq h.contents_eq.symm hbuf

theorem Retains.sound {s s' : PoolState σ} (h : Retains s s') (hs : Sound s.pool) :
    Sound s'.pool := by
  refine ⟨?_, ?_, ?_⟩
  · have heq := congrArg List.length h.contents_eq
    rw [List.length_map, List.length_map] at heq
    rw [heq, hs.length_eq, h.poolSize_eq]
  · rw [h.hand_eq, h.poolSize_eq]
    exact hs.hand_lt
  · intro p i hi
    rw [h.poolSize_eq]
    exact hs.mapped_lt p i (h.lookup_of p i hi)

variable [StorageTrait σ]

theorem keeps_flushPage (p : PageId) : Keeps Retains (flushPage p : Proc (PoolState σ) Unit) := by
  apply keeps_lookup_bind
  rintro (_ | idx)
  · exact keeps_pure ()
  · apply keeps_buffer_bind
    intro s buf hbuf s' h
    by_cases hdirty : buf.isDirty = true
    · rw [if_pos hdirty, bind_apply] at h
      rcases hwrite : writePage s.storage p buf.data with ⟨e | _, storage⟩
      · simp only [writeStorage, hwrite] at h
        cases h
        exact ⟨rfl, rfl, rfl, fun _ _ h => h⟩
      · simp only [writeStorage, hwrite] at h
        cases h
        exact retains_setBuffer hbuf (by rfl) storage
    · rw [if_neg hdirty] at h
      cases h
      exact refl_of Retains s

theorem keeps_flushAll (order : List PageId) :
    Keeps Retains (flushAll order : Proc (PoolState σ) Unit) := by
  induction order with
  | nil => exact keeps_pure ()
  | cons p order ih => exact keeps_bind (keeps_flushPage p) fun _ => ih

end Retained

section Runs

variable {σ : Type} [StorageTrait σ]

inductive PoolOp where
  | fetchPage (p : PageId)
  | pinPage (p : PageId)
  | unpinPage (p : PageId) (isDirty : Bool)
  | flushPage (p : PageId)
  | flushAll (order : List PageId)
  | invalidatePage (p : PageId)

/-- One call on the pool that does not panic. -/
inductive PoolStep : PoolState σ → PoolOp → PoolState σ → Prop
  | fetchPage {s s' : PoolState σ} {p : PageId} :
      (fetchPage p s).state? = some s' → PoolStep s (.fetchPage p) s'
  | pinPage {s s' : PoolState σ} {p : PageId} :
      (pinPage p s).state? = some s' → PoolStep s (.pinPage p) s'
  | unpinPage {s s' : PoolState σ} {p : PageId} {isDirty : Bool} :
      (unpinPage p isDirty s).state? = some s' → PoolStep s (.unpinPage p isDirty) s'
  | flushPage {s s' : PoolState σ} {p : PageId} :
      (flushPage p s).state? = some s' → PoolStep s (.flushPage p) s'
  | flushAll {s s' : PoolState σ} {order : List PageId} :
      order.Perm s.pool.pageMap.keys → (flushAll order s).state? = some s' →
      PoolStep s (.flushAll order) s'
  | invalidatePage {s s' : PoolState σ} {p : PageId} :
      (invalidatePage p s).state? = some s' → PoolStep s (.invalidatePage p) s'

theorem fetchPage_hit {s : PoolState σ} {p : PageId} {i : Nat}
    (hlookup : s.pool.pageMap.lookup p = some i) :
    fetchPage p s = (pinSlot i >>= fun _ => pure i) s := by
  simp only [fetchPage, lookupPage, bind_apply, read_apply, hlookup]

theorem fetchPage_hit_index {s s' : PoolState σ} {p : PageId} {i j : Nat}
    (hlookup : s.pool.pageMap.lookup p = some i) (h : fetchPage p s = .ok j s') : j = i := by
  rw [fetchPage_hit hlookup] at h
  obtain ⟨_, _, _, hpure⟩ := bind_eq_ok.mp h
  cases hpure
  rfl

/-- A step either leaves every slot's page alone or is a fetch that missed. -/
theorem step_cases {s s' : PoolState σ} {op : PoolOp} (hs : Sound s.pool)
    (h : PoolStep s op s') :
    Retains s s' ∧ (∀ p, op = .fetchPage p → ∃ i, s.pool.pageMap.lookup p = some i) ∨
      ∃ p pool slot victim, op = .fetchPage p ∧ s.pool.pageMap.lookup p = none ∧
        s.pool.findVictim = some (pool, slot) ∧ VictimFound s.pool pool slot ∧
        pool.buffers[slot]? = some victim ∧ (fetchPage p s).state? = some s' ∧
        Missed s p pool slot victim (fetchPage p s) := by
  cases h with
  | fetchPage h =>
      rename_i p
      cases hlookup : s.pool.pageMap.lookup p with
      | none =>
          obtain ⟨pool, slot, victim, hfind, hv, hvictim, hmissed⟩ := fetchPage_missed hs hlookup
          exact Or.inr ⟨p, pool, slot, victim, rfl, hlookup, hfind, hv, hvictim, h, hmissed⟩
      | some i =>
          refine Or.inl ⟨?_, ?_⟩
          · rw [fetchPage_hit hlookup] at h
            exact keeps_bind (keeps_pinSlot i) (fun _ => keeps_pure i) s s' h
          · rintro _ ⟨rfl⟩
            exact ⟨i, hlookup⟩
  | pinPage h => exact Or.inl ⟨keeps_pinPage _ s s' h, by simp⟩
  | unpinPage h => exact Or.inl ⟨keeps_unpinPage _ _ s s' h, by simp⟩
  | flushPage h => exact Or.inl ⟨keeps_flushPage _ s s' h, by simp⟩
  | flushAll _ h => exact Or.inl ⟨keeps_flushAll _ s s' h, by simp⟩
  | invalidatePage h => exact Or.inl ⟨keeps_invalidatePage _ s s' h, by simp⟩

theorem sound_load {pool : BufferPool} {slot : Nat} (h : Sound pool) (hslot : slot < pool.poolSize)
    (p : PageId) (data : Bytes) : Sound (load pool slot p data) := by
  refine ⟨?_, h.hand_lt, ?_⟩
  · simpa [load] using h.length_eq
  · intro q i hi
    simp only [load] at hi ⊢
    by_cases hqp : q = p
    · subst hqp
      rw [AList.lookup_insert] at hi
      cases hi
      exact hslot
    · rw [AList.lookup_insert_ne hqp] at hi
      exact h.mapped_lt q i hi

theorem lookup_of_lookup_erase {map : AList fun _ : PageId => Nat} {p q : PageId} {i : Nat}
    (h : (map.erase p).lookup q = some i) : q ≠ p ∧ map.lookup q = some i := by
  by_cases hqp : q = p
  · subst hqp
    rw [AList.lookup_erase] at h
    cases h
  · rw [AList.lookup_erase_ne hqp] at h
    exact ⟨hqp, h⟩

theorem sound_erase {pool : BufferPool} (h : Sound pool) (p : PageId) :
    Sound { pool with pageMap := pool.pageMap.erase p } :=
  ⟨h.length_eq, h.hand_lt, fun q i hi => h.mapped_lt q i (lookup_of_lookup_erase hi).2⟩

omit [StorageTrait σ] in
/-- Invalidating a page never fails and leaves the store alone. -/
theorem invalidatePage_ok {s : PoolState σ} (hs : Sound s.pool) (p : PageId) :
    ∃ s', invalidatePage p s = .ok () s' ∧ s'.storage = s.storage ∧ Sound s'.pool := by
  cases hlookup : s.pool.pageMap.lookup p with
  | none =>
      refine ⟨s, ?_, rfl, hs⟩
      simp [invalidatePage, lookupPage, bind_apply, hlookup]
  | some i =>
      obtain ⟨buf, hbuf⟩ := hs.buffer (hs.mapped_lt p i hlookup)
      refine ⟨⟨{ s.pool with
        buffers := s.pool.buffers.set i
          { buf with isDirty := false, usageCount := 0, pinCount := 0 }
        pageMap := s.pool.pageMap.erase p }, s.storage⟩, ?_, rfl, ?_⟩
      · simp [invalidatePage, lookupPage, bind_apply, hlookup, modifyMap, buffer, hbuf, setBuffer]
      · obtain ⟨hlen, hhand, hmapped⟩ := sound_erase hs p
        exact ⟨by simpa using hlen, hhand, hmapped⟩

theorem sound_step {s s' : PoolState σ} {op : PoolOp} (hs : Sound s.pool)
    (h : PoolStep s op s') : Sound s'.pool := by
  rcases step_cases hs h with ⟨hretains, _⟩ |
    ⟨p, pool, slot, victim, _, _, _, hv, _, hstate, hmissed⟩
  · exact hretains.sound hs
  · have hpool := hv.sound hs
    have hslot : slot < pool.poolSize := by
      rw [hv.poolSize_eq]
      exact hv.slot_lt
    generalize houtcome : fetchPage p s = outcome at hstate hmissed
    cases hmissed with
    | unread _ =>
        cases hstate
        exact hpool
    | unwritten _ _ _ _ =>
        cases hstate
        exact hpool
    | writtenBack _ _ _ _ =>
        cases hstate
        exact sound_load (sound_erase hpool _) hslot p _
    | overwritten _ _ =>
        cases hstate
        exact sound_load hpool hslot p _

theorem sound_new {poolSize : Nat} (hpos : 0 < poolSize) : Sound (BufferPool.new poolSize) := by
  refine ⟨?_, hpos, ?_⟩
  · simp [BufferPool.new]
  · intro p i hi
    simp [BufferPool.new] at hi

/-- Whenever `p` is mapped to slot `i`, slot `i` holds page `p` and no other
page is mapped to it. -/
def MapConsistent (pool : BufferPool) : Prop :=
  ∀ p i, pool.pageMap.lookup p = some i →
    (∃ buf, pool.buffers[i]? = some buf ∧ buf.pageId = p) ∧
      ∀ q, pool.pageMap.lookup q = some i → q = p

/-- The fetch hits, fails to read, or reuses a slot that no page is mapped to or
that is dirty and unpinned, in which case its page is unmapped. -/
def UnmapsVictim (s : PoolState σ) : PoolOp → Prop
  | .fetchPage p =>
      (∃ i, s.pool.pageMap.lookup p = some i) ∨ (∃ e, readPage s.storage p = .error e) ∨
        ∀ pool slot, s.pool.findVictim = some (pool, slot) →
          (∀ q, s.pool.pageMap.lookup q ≠ some slot) ∨
            ∃ buf, s.pool.buffers[slot]? = some buf ∧ buf.isDirty = true ∧ buf.pinCount = 0
  | _ => True

theorem mapConsistent_of_held {pool : BufferPool}
    (h : ∀ p i, pool.pageMap.lookup p = some i →
      ∃ buf, pool.buffers[i]? = some buf ∧ buf.pageId = p) : MapConsistent pool := by
  intro p i hp
  refine ⟨h p i hp, ?_⟩
  intro q hq
  obtain ⟨buf, hbuf, rfl⟩ := h p i hp
  obtain ⟨buf', hbuf', rfl⟩ := h q i hq
  rw [hbuf] at hbuf'
  cases hbuf'
  rfl

omit [StorageTrait σ] in
theorem Retains.mapConsistent {s s' : PoolState σ} (h : Retains s s')
    (hs : MapConsistent s.pool) : MapConsistent s'.pool := by
  apply mapConsistent_of_held
  intro p i hp
  obtain ⟨⟨buf, hbuf, rfl⟩, _⟩ := hs p i (h.lookup_of p i hp)
  obtain ⟨buf', hbuf', heq⟩ := h.buffer hbuf
  exact ⟨buf', hbuf', congrArg Prod.fst heq⟩

theorem VictimFound.mapConsistent {pool pool' : BufferPool} {slot : Nat}
    (hv : VictimFound pool pool' slot) (h : MapConsistent pool) : MapConsistent pool' := by
  apply mapConsistent_of_held
  intro p i hp
  rw [hv.pageMap_eq] at hp
  obtain ⟨⟨buf, hbuf, hpage⟩, _⟩ := h p i hp
  obtain ⟨count, hcount⟩ := getElem?_of_map_sansUsage hv.sameButUsage.symm hbuf
  exact ⟨_, hcount, hpage⟩

theorem mapConsistent_erase {pool : BufferPool} (h : MapConsistent pool) (p : PageId) :
    MapConsistent { pool with pageMap := pool.pageMap.erase p } := by
  apply mapConsistent_of_held
  intro q i hq
  exact (h q i (lookup_of_lookup_erase hq).2).1

/-- Loading a page keeps the map consistent exactly if no other page was mapped
to the slot. -/
theorem mapConsistent_load_iff {pool : BufferPool} {slot : Nat} (hpool : Sound pool)
    (h : MapConsistent pool) (hslot : slot < pool.poolSize) {p : PageId}
    (hmiss : pool.pageMap.lookup p = none) (data : Bytes) :
    MapConsistent (load pool slot p data) ↔ ∀ q, pool.pageMap.lookup q ≠ some slot := by
  constructor
  · intro hload q hq
    have hqp : q ≠ p := by
      rintro rfl
      rw [hmiss] at hq
      cases hq
    have hp : (load pool slot p data).pageMap.lookup p = some slot := AList.lookup_insert _
    refine hqp ((hload p slot hp).2 q ?_)
    simp only [load]
    rw [AList.lookup_insert_ne hqp, hq]
  · intro hfree
    apply mapConsistent_of_held
    intro q i hq
    simp only [load] at hq ⊢
    by_cases hqp : q = p
    · subst hqp
      rw [AList.lookup_insert] at hq
      cases hq
      rw [List.getElem?_set_self (by rw [hpool.length_eq]; exact hslot)]
      exact ⟨_, rfl, rfl⟩
    · rw [AList.lookup_insert_ne hqp] at hq
      have hne : slot ≠ i := by
        rintro rfl
        exact hfree q hq
      rw [List.getElem?_set_ne hne]
      exact (h q i hq).1

theorem mapConsistent_step_iff {s s' : PoolState σ} {op : PoolOp} (hs : Sound s.pool)
    (hmap : MapConsistent s.pool) (h : PoolStep s op s') :
    MapConsistent s'.pool ↔ UnmapsVictim s op := by
  rcases step_cases hs h with ⟨hretains, hhit⟩ |
    ⟨p, pool, slot, victim, rfl, hmiss, hfind, hv, hvictim, hstate, hmissed⟩
  · refine iff_of_true (hretains.mapConsistent hmap) ?_
    cases op with
    | fetchPage p => exact Or.inl (hhit p rfl)
    | _ => exact trivial
  · have hpool := hv.sound hs
    have hpoolMap := hv.mapConsistent hmap
    have hslot : slot < pool.poolSize := by
      rw [hv.poolSize_eq]
      exact hv.slot_lt
    obtain ⟨count, hold⟩ := getElem?_of_map_sansUsage hv.sameButUsage hvictim
    generalize houtcome : fetchPage p s = outcome at hstate hmissed
    cases hmissed with
    | unread hread =>
        cases hstate
        exact iff_of_true hpoolMap (Or.inr (Or.inl ⟨_, hread⟩))
    | unwritten _ hdirty hpin _ =>
        cases hstate
        refine iff_of_true hpoolMap (Or.inr (Or.inr ?_))
        intro pool' slot' hfind'
        rw [hfind] at hfind'
        cases hfind'
        exact Or.inr ⟨_, hold, hdirty, hpin⟩
    | writtenBack _ hdirty hpin _ =>
        cases hstate
        refine iff_of_true ?_ (Or.inr (Or.inr ?_))
        · have hmiss' : (pool.pageMap.erase victim.pageId).lookup p = none := by
            rw [Option.eq_none_iff_forall_ne_some]
            intro i hi
            have hi := (lookup_of_lookup_erase hi).2
            rw [hv.pageMap_eq, hmiss] at hi
            cases hi
          refine (mapConsistent_load_iff (sound_erase hpool _) (mapConsistent_erase hpoolMap _)
            hslot hmiss' _).mpr ?_
          intro q hq
          obtain ⟨hne, hq⟩ := lookup_of_lookup_erase hq
          obtain ⟨⟨buf, hbuf, hpage⟩, _⟩ := hpoolMap q slot hq
          rw [hvictim] at hbuf
          cases hbuf
          exact hne hpage.symm
        · intro pool' slot' hfind'
          rw [hfind] at hfind'
          cases hfind'
          exact Or.inr ⟨_, hold, hdirty, hpin⟩
    | overwritten hread hclean =>
        cases hstate
        rw [mapConsistent_load_iff hpool hpoolMap hslot (by rw [hv.pageMap_eq]; exact hmiss),
          hv.pageMap_eq]
        constructor
        · intro hfree
          refine Or.inr (Or.inr ?_)
          intro pool' slot' hfind'
          rw [hfind] at hfind'
          cases hfind'
          exact Or.inl hfree
        · rintro (⟨i, hi⟩ | ⟨e, herror⟩ | hreuse)
          · rw [hmiss] at hi
            cases hi
          · rw [hread] at herror
            cases herror
          · rcases hreuse pool slot hfind with hfree | ⟨buf, hbuf, hdirty, hpin⟩
            · exact hfree
            · rw [hold] at hbuf
              cases hbuf
              exact absurd ⟨hdirty, hpin⟩ hclean

/-- `data` was read from storage under page `p` by one of the fetches. -/
def ReadUnder (past : List (Transition (PoolState σ) PoolOp)) (p : PageId) (data : Bytes) :
    Prop :=
  ∃ tr ∈ past, tr.label = .fetchPage p ∧ readPage tr.source.storage p = .ok data

/-- Every mapped page's bytes were read under that page. -/
def MapReadUnder (past : List (Transition (PoolState σ) PoolOp)) (s : PoolState σ) : Prop :=
  ∀ p i, s.pool.pageMap.lookup p = some i →
    ∃ buf, s.pool.buffers[i]? = some buf ∧ buf.pageId = p ∧ ReadUnder past p buf.data

theorem ReadUnder.append {past : List (Transition (PoolState σ) PoolOp)} {p : PageId}
    {data : Bytes} (h : ReadUnder past p data) (tr : Transition (PoolState σ) PoolOp) :
    ReadUnder (past ++ [tr]) p data := by
  obtain ⟨rd, hrd, hlabel, hread⟩ := h
  exact ⟨rd, List.mem_append_left _ hrd, hlabel, hread⟩

/-- A fetch that returns slot `i` leaves page `p` there, with bytes read under `p`. -/
def FetchedPage (past : List (Transition (PoolState σ) PoolOp))
    (tr : Transition (PoolState σ) PoolOp) : Prop :=
  ∀ p i, tr.label = .fetchPage p → fetchPage p tr.source = .ok i tr.target →
    ∃ buf, tr.target.pool.buffers[i]? = some buf ∧ buf.pageId = p ∧
      ReadUnder (past ++ [tr]) p buf.data

theorem mapReadUnder_load {past : List (Transition (PoolState σ) PoolOp)} {s : PoolState σ}
    {pool : BufferPool} {slot : Nat} {p : PageId} {data : Bytes} (storage : σ)
    (hread : readPage s.storage p = .ok data) (hlt : slot < pool.buffers.length)
    (hmap : MapConsistent (load pool slot p data))
    (h : MapReadUnder past ⟨pool, s.storage⟩) :
    MapReadUnder (past ++ [⟨s, .fetchPage p, ⟨load pool slot p data, storage⟩⟩])
      ⟨load pool slot p data, storage⟩ := by
  intro q i hq
  have hp : (load pool slot p data).pageMap.lookup p = some slot := AList.lookup_insert _
  by_cases hqp : q = p
  · subst hqp
    have hi : i = slot := by
      rw [hp] at hq
      cases hq
      rfl
    subst hi
    refine ⟨_, List.getElem?_set_self hlt, rfl, ?_⟩
    exact ⟨_, List.mem_append_right _ (List.mem_singleton.mpr rfl), rfl, hread⟩
  · have hne : slot ≠ i := by
      rintro rfl
      exact hqp ((hmap p slot hp).2 q hq)
    have hold : pool.pageMap.lookup q = some i := by
      simp only [load] at hq
      rwa [AList.lookup_insert_ne hqp] at hq
    obtain ⟨buf, hbuf, hpage, hdata⟩ := h q i hold
    refine ⟨buf, ?_, hpage, hdata.append _⟩
    simp only [load]
    rw [List.getElem?_set_ne hne]
    exact hbuf

theorem mapReadUnder_step {past : List (Transition (PoolState σ) PoolOp)} {s s' : PoolState σ}
    {op : PoolOp} (hs : Sound s.pool) (hmap : MapConsistent s'.pool) (h : MapReadUnder past s)
    (hstep : PoolStep s op s') :
    MapReadUnder (past ++ [⟨s, op, s'⟩]) s' ∧ FetchedPage past ⟨s, op, s'⟩ := by
  rcases step_cases hs hstep with ⟨hretains, hhit⟩ |
    ⟨p, pool, slot, victim, rfl, hmiss, hfind, hv, hvictim, hstate, hmissed⟩
  · have hkept : ∀ p i, s.pool.pageMap.lookup p = some i →
        ∃ buf, s'.pool.buffers[i]? = some buf ∧ buf.pageId = p ∧
          ReadUnder (past ++ [⟨s, op, s'⟩]) p buf.data := by
      intro p i hi
      obtain ⟨buf, hbuf, hpage, hdata⟩ := h p i hi
      obtain ⟨buf', hbuf', heq⟩ := hretains.buffer hbuf
      refine ⟨buf', hbuf', (congrArg Prod.fst heq).trans hpage, ?_⟩
      have hsame : buf'.data = buf.data := congrArg Prod.snd heq
      rw [hsame]
      exact hdata.append _
    refine ⟨fun p i hi => hkept p i (hretains.lookup_of p i hi), ?_⟩
    intro p i hlabel hfetch
    obtain ⟨j, hj⟩ := hhit p hlabel
    have hij : i = j := fetchPage_hit_index hj hfetch
    subst hij
    exact hkept p i hj
  · have hpool : MapReadUnder past ⟨pool, s.storage⟩ := by
      intro q i hq
      simp only [hv.pageMap_eq] at hq
      obtain ⟨buf, hbuf, hpage, hdata⟩ := h q i hq
      obtain ⟨count, hcount⟩ := getElem?_of_map_sansUsage hv.sameButUsage.symm hbuf
      exact ⟨_, hcount, hpage, hdata⟩
    have hlt := (List.getElem?_eq_some_iff.mp hvictim).1
    have hloaded : ∀ pool' data storage, s' = ⟨load pool' slot p data, storage⟩ →
        pool'.buffers = pool.buffers → MapReadUnder past ⟨pool', s.storage⟩ →
        readPage s.storage p = .ok data → fetchPage p s = .ok slot s' →
        MapReadUnder (past ++ [⟨s, .fetchPage p, s'⟩]) s' ∧
          FetchedPage past ⟨s, .fetchPage p, s'⟩ := by
      rintro pool' data storage rfl hbuffers hpool' hread hok
      have hall := mapReadUnder_load storage hread (by rw [hbuffers]; exact hlt) hmap hpool'
      refine ⟨hall, ?_⟩
      rintro q i ⟨rfl⟩ hfetch
      simp only [hok] at hfetch
      cases hfetch
      exact hall p slot (AList.lookup_insert _)
    have hfailed : ∀ storage e, s' = ⟨pool, storage⟩ → fetchPage p s = .err e s' →
        MapReadUnder (past ++ [⟨s, .fetchPage p, s'⟩]) s' ∧
          FetchedPage past ⟨s, .fetchPage p, s'⟩ := by
      rintro storage e rfl herr
      refine ⟨?_, ?_⟩
      · intro q i hq
        obtain ⟨buf, hbuf, hpage, hdata⟩ := hpool q i hq
        exact ⟨buf, hbuf, hpage, hdata.append _⟩
      · rintro q i ⟨rfl⟩ hfetch
        simp only [herr] at hfetch
        cases hfetch
    generalize houtcome : fetchPage p s = outcome at hstate hmissed
    cases hmissed with
    | unread _ =>
        cases hstate
        exact hfailed _ _ rfl houtcome
    | unwritten _ _ _ _ =>
        cases hstate
        exact hfailed _ _ rfl houtcome
    | writtenBack hread _ _ _ =>
        cases hstate
        refine hloaded _ _ _ rfl rfl ?_ hread houtcome
        intro q i hq
        exact hpool q i (lookup_of_lookup_erase hq).2
    | overwritten hread _ =>
        cases hstate
        exact hloaded _ _ _ rfl rfl hpool hread houtcome

theorem mapConsistent_new (poolSize : Nat) : MapConsistent (BufferPool.new poolSize) := by
  intro p i hi
  simp [BufferPool.new] at hi

/-- In a run of pool calls, every reached map is consistent and every fetched
slot holds the page asked for, exactly if every fetch unmaps its victim. -/
theorem run_mapConsistent_iff {poolSize : Nat} (hpos : 0 < poolSize) (storage : σ)
    {trace : List (Transition (PoolState σ) PoolOp)} {t : PoolState σ}
    (hrun : Run PoolStep ⟨BufferPool.new poolSize, storage⟩ trace t) :
    (∀ past tr rest, trace = past ++ tr :: rest →
      MapConsistent tr.target.pool ∧ FetchedPage past tr) ↔
      ∀ tr ∈ trace, UnmapsVictim tr.source tr.label := by
  have hsoundAll := (Run.invariant_of_step (fun s : PoolState σ => Sound s.pool)
    (fun _ _ _ hs h => sound_step hs h) hrun (sound_new hpos)).2
  constructor
  · intro hall
    refine (Run.invariant_iff (fun s : PoolState σ => Sound s.pool ∧ MapConsistent s.pool)
      UnmapsVictim ?_ hrun ⟨sound_new hpos, mapConsistent_new poolSize⟩).mp ?_
    · rintro s op s' ⟨hs, hmap⟩ hstep
      rw [← mapConsistent_step_iff hs hmap hstep]
      exact and_iff_right (sound_step hs hstep)
    · intro tr htr
      obtain ⟨past, rest, hsplit⟩ := List.append_of_mem htr
      exact ⟨(hsoundAll tr htr).2, (hall past tr rest hsplit).1⟩
  · rintro hguard past tr rest rfl
    obtain ⟨hpast, hstep, _⟩ := Run.append_cons_inv hrun
    have hbefore : Sound tr.source.pool ∧ MapConsistent tr.source.pool ∧
        MapReadUnder past tr.source := by
      refine Run.invariant_history
        (fun past s => Sound s.pool ∧ MapConsistent s.pool ∧ MapReadUnder past s)
        UnmapsVictim ?_ hpast [] ⟨sound_new hpos, mapConsistent_new poolSize, ?_⟩ ?_
      · rintro past s op s' ⟨hs, hmap, hread⟩ hguard hstep
        have hmap' := (mapConsistent_step_iff hs hmap hstep).mpr hguard
        exact ⟨sound_step hs hstep, hmap', (mapReadUnder_step hs hmap' hread hstep).1⟩
      · intro p i hi
        simp [BufferPool.new] at hi
      · intro tr' htr'
        exact hguard tr' (List.mem_append_left _ htr')
    obtain ⟨hs, hmap, hread⟩ := hbefore
    have hmap' := (mapConsistent_step_iff hs hmap hstep).mpr (hguard tr (by simp))
    exact ⟨hmap', (mapReadUnder_step hs hmap' hread hstep).2⟩

theorem clean_victim_stays_mapped :
    ∃ trace t, Run PoolStep (⟨BufferPool.new 2, EphemeralStorage.new⟩ : PoolState EphemeralStorage)
        trace t ∧
      trace.map Transition.label =
        [.fetchPage ⟨1⟩, .unpinPage ⟨1⟩ false, .fetchPage ⟨2⟩, .unpinPage ⟨2⟩ false,
          .fetchPage ⟨3⟩] ∧
      ¬MapConsistent t.pool ∧
      ∃ t', fetchPage ⟨1⟩ t = .ok 0 t' ∧ t'.pool.buffers[0]?.map Buffer.pageId = some ⟨3⟩ := by
  refine ⟨_, _, Run.cons (PoolStep.fetchPage rfl) <| Run.cons (PoolStep.unpinPage rfl) <|
    Run.cons (PoolStep.fetchPage rfl) <| Run.cons (PoolStep.unpinPage rfl) <|
    Run.cons (PoolStep.fetchPage rfl) <| Run.nil _, rfl, ?_, _, rfl, rfl⟩
  intro h
  have heq := (h ⟨3⟩ 0 rfl).2 ⟨1⟩ rfl
  exact absurd heq (by decide)

theorem run_mapConsistent_iff_writeBack :
    ∃ trace t, Run PoolStep (⟨BufferPool.new 1, EphemeralStorage.new⟩ : PoolState EphemeralStorage)
        trace t ∧
      trace.map Transition.label =
        [.fetchPage ⟨1⟩, .unpinPage ⟨1⟩ true, .fetchPage ⟨2⟩] ∧
      ∀ past tr rest, trace = past ++ tr :: rest →
        MapConsistent tr.target.pool ∧ FetchedPage past tr := by
  refine ⟨_, _, Run.cons (PoolStep.fetchPage rfl) <| Run.cons (PoolStep.unpinPage rfl) <|
    Run.cons (PoolStep.fetchPage rfl) <| Run.nil _, rfl, ?_⟩
  refine (run_mapConsistent_iff Nat.one_pos EphemeralStorage.new
    (Run.cons (PoolStep.fetchPage rfl) <| Run.cons (PoolStep.unpinPage rfl) <|
    Run.cons (PoolStep.fetchPage rfl) <| Run.nil _)).mpr ?_
  intro tr htr
  simp only [List.mem_cons, List.not_mem_nil, or_false] at htr
  rcases htr with rfl | rfl | rfl
  · refine Or.inr (Or.inr fun _ _ _ => Or.inl ?_)
    intro q hq
    simp [BufferPool.new] at hq
  · exact trivial
  · refine Or.inr (Or.inr ?_)
    intro pool slot hfind
    cases hfind
    exact Or.inr ⟨_, rfl, rfl, rfl⟩

/-- The fetch of `p` put a page read from storage into slot `i`. -/
def Overwrites (s : PoolState σ) (p : PageId) (i : Nat) (s' : PoolState σ) : Prop :=
  s.pool.pageMap.lookup p = none ∧ fetchPage p s = .ok i s'

/-- Slots that were not overwritten hold what they held; an overwritten slot was
unpinned, and if it was dirty its page went to storage first. -/
def Protects (s : PoolState σ) (p : PageId) (s' : PoolState σ) : Prop :=
  ∀ i buf, s.pool.buffers[i]? = some buf →
    (¬Overwrites s p i s' →
      ∃ buf', s'.pool.buffers[i]? = some buf' ∧ contents buf' = contents buf) ∧
    (Overwrites s p i s' →
      buf.pinCount = 0 ∧
        (buf.isDirty = true →
          writePage s.storage buf.pageId buf.data = (.ok (), s'.storage)))

/-- The fetch hits, fails to read, or finds some slot unpinned. -/
def HasUnpinned (s : PoolState σ) (p : PageId) : Prop :=
  (∃ i, s.pool.pageMap.lookup p = some i) ∨ (∃ e, readPage s.storage p = .error e) ∨
    ∃ buf ∈ s.pool.buffers, buf.pinCount = 0

theorem VictimFound.buffer {pool pool' : BufferPool} {slot i : Nat} {buf : Buffer}
    (hv : VictimFound pool pool' slot) (hbuf : pool.buffers[i]? = some buf) :
    ∃ buf', pool'.buffers[i]? = some buf' ∧ contents buf' = contents buf := by
  obtain ⟨count, hcount⟩ := getElem?_of_map_sansUsage hv.sameButUsage.symm hbuf
  exact ⟨_, hcount, rfl⟩

theorem protects_of_failed {s : PoolState σ} {p : PageId} {pool : BufferPool} {slot : Nat}
    {storage : σ} {e : String} (hv : VictimFound s.pool pool slot)
    (herr : fetchPage p s = .err e ⟨pool, storage⟩) : Protects s p ⟨pool, storage⟩ := by
  intro i buf hbuf
  refine ⟨fun _ => hv.buffer hbuf, ?_⟩
  rintro ⟨_, hok⟩
  rw [herr] at hok
  cases hok

/-- For a fetch that loads a page, only the loaded slot is at stake. -/
theorem protects_load_iff {s : PoolState σ} {p : PageId} {pool pool' : BufferPool} {slot : Nat}
    {data : Bytes} {storage : σ} {old : Buffer} (hv : VictimFound s.pool pool slot)
    (hbuffers : pool'.buffers = pool.buffers) (hmiss : s.pool.pageMap.lookup p = none)
    (hold : s.pool.buffers[slot]? = some old)
    (hok : fetchPage p s = .ok slot ⟨load pool' slot p data, storage⟩) :
    Protects s p ⟨load pool' slot p data, storage⟩ ↔
      old.pinCount = 0 ∧
        (old.isDirty = true → writePage s.storage old.pageId old.data = (.ok (), storage)) := by
  constructor
  · intro h
    exact (h slot old hold).2 ⟨hmiss, hok⟩
  · intro h i buf hbuf
    refine ⟨?_, ?_⟩
    · intro hnot
      have hne : slot ≠ i := by
        rintro rfl
        exact hnot ⟨hmiss, hok⟩
      simp only [load]
      rw [List.getElem?_set_ne hne, hbuffers]
      exact hv.buffer hbuf
    · rintro ⟨_, hfetch⟩
      rw [hok] at hfetch
      cases hfetch
      rw [hold] at hbuf
      cases hbuf
      exact h

theorem protects_step_iff {s s' : PoolState σ} {p : PageId} (hs : Sound s.pool)
    (h : PoolStep s (.fetchPage p) s') : Protects s p s' ↔ HasUnpinned s p := by
  rcases step_cases hs h with ⟨hretains, hhit⟩ |
    ⟨_, pool, slot, victim, ⟨rfl⟩, hmiss, _, hv, hvictim, hstate, hmissed⟩
  · obtain ⟨j, hj⟩ := hhit p rfl
    refine iff_of_true ?_ (Or.inl ⟨j, hj⟩)
    intro i buf hbuf
    refine ⟨fun _ => hretains.buffer hbuf, ?_⟩
    rintro ⟨hmiss, _⟩
    rw [hj] at hmiss
    cases hmiss
  · obtain ⟨count, hold⟩ := getElem?_of_map_sansUsage hv.sameButUsage hvictim
    have hmem := List.mem_of_getElem? hold
    generalize houtcome : fetchPage p s = outcome at hstate hmissed
    cases hmissed with
    | unread hread =>
        cases hstate
        exact iff_of_true (protects_of_failed hv houtcome) (Or.inr (Or.inl ⟨_, hread⟩))
    | unwritten _ _ hpin _ =>
        cases hstate
        exact iff_of_true (protects_of_failed hv houtcome) (Or.inr (Or.inr ⟨_, hmem, hpin⟩))
    | writtenBack _ _ hpin hwrite =>
        cases hstate
        refine iff_of_true ?_ (Or.inr (Or.inr ⟨_, hmem, hpin⟩))
        exact (protects_load_iff hv (by rfl) hmiss hold houtcome).mpr ⟨hpin, fun _ => hwrite⟩
    | overwritten hread hclean =>
        cases hstate
        rw [protects_load_iff hv (by rfl) hmiss hold houtcome]
        constructor
        · rintro ⟨hpin, _⟩
          exact Or.inr (Or.inr ⟨_, hmem, hpin⟩)
        · rintro (⟨i, hi⟩ | ⟨e, herror⟩ | hunpinned)
          · rw [hmiss] at hi
            cases hi
          · rw [hread] at herror
            cases herror
          · obtain ⟨buf, hbuf, hpin⟩ := hv.unpinned hunpinned
            rw [hold] at hbuf
            cases hbuf
            exact ⟨hpin, fun hdirty => absurd ⟨hdirty, hpin⟩ hclean⟩

/-- In a run of pool calls, no fetch overwrites a pinned slot or drops dirty
data, exactly if every fetch that misses and reads finds some slot unpinned. -/
theorem run_protects_iff {poolSize : Nat} (hpos : 0 < poolSize) (storage : σ)
    {trace : List (Transition (PoolState σ) PoolOp)} {t : PoolState σ}
    (hrun : Run PoolStep ⟨BufferPool.new poolSize, storage⟩ trace t) :
    (∀ tr ∈ trace, ∀ p, tr.label = .fetchPage p → Protects tr.source p tr.target) ↔
      ∀ tr ∈ trace, ∀ p, tr.label = .fetchPage p → HasUnpinned tr.source p := by
  have hsoundAll := (Run.invariant_of_step (fun s : PoolState σ => Sound s.pool)
    (fun _ _ _ hs h => sound_step hs h) hrun (sound_new hpos)).2
  have hiff : ∀ tr ∈ trace, ∀ p, tr.label = .fetchPage p →
      (Protects tr.source p tr.target ↔ HasUnpinned tr.source p) := by
    intro tr htr p hlabel
    obtain ⟨past, rest, rfl⟩ := List.append_of_mem htr
    obtain ⟨_, hstep, _⟩ := Run.append_cons_inv hrun
    rw [hlabel] at hstep
    exact protects_step_iff (hsoundAll tr htr).1 hstep
  constructor
  · intro hall tr htr p hlabel
    exact (hiff tr htr p hlabel).mp (hall tr htr p hlabel)
  · intro hall tr htr p hlabel
    exact (hiff tr htr p hlabel).mpr (hall tr htr p hlabel)

/-- A pool of one slot whose page is dirty and pinned again. -/
def pinnedDirty : PoolState EphemeralStorage where
  pool :=
    { poolSize := 1
      buffers :=
        [{ pageId := ⟨1⟩
           data := zeroPage
           isDirty := true
           usageCount := 2
           pinCount := 1 }]
      pageMap := AList.insert ⟨1⟩ 0 ∅
      nextVictim := 0 }
  storage := EphemeralStorage.new

theorem pinned_dirty_slot_overwritten :
    ∃ past t, Run PoolStep (⟨BufferPool.new 1, EphemeralStorage.new⟩ : PoolState EphemeralStorage)
        (past ++ [⟨pinnedDirty, .fetchPage ⟨2⟩, t⟩]) t ∧
      past.map Transition.label = [.fetchPage ⟨1⟩, .unpinPage ⟨1⟩ true, .pinPage ⟨1⟩] ∧
      Overwrites pinnedDirty ⟨2⟩ 0 t ∧ t.storage = pinnedDirty.storage ∧
      ¬Protects pinnedDirty ⟨2⟩ t := by
  have hpast : ∃ past, Run PoolStep
        (⟨BufferPool.new 1, EphemeralStorage.new⟩ : PoolState EphemeralStorage)
        past pinnedDirty ∧
      past.map Transition.label = [.fetchPage ⟨1⟩, .unpinPage ⟨1⟩ true, .pinPage ⟨1⟩] :=
    ⟨_, Run.cons (PoolStep.fetchPage (p := ⟨1⟩) rfl) <|
      Run.cons (PoolStep.unpinPage (p := ⟨1⟩) rfl) <|
      Run.cons (PoolStep.pinPage (p := ⟨1⟩) rfl) <| Run.nil pinnedDirty, rfl⟩
  have hfetch : fetchPage ⟨2⟩ pinnedDirty =
      .ok 0 ⟨load pinnedDirty.pool 0 ⟨2⟩ zeroPage, pinnedDirty.storage⟩ := rfl
  obtain ⟨past, hrun, hlabels⟩ := hpast
  have hlast := PoolStep.fetchPage (p := ⟨2⟩) (congrArg Outcome.state? hfetch)
  refine ⟨past, _, hrun.append (Run.cons hlast (Run.nil _)), hlabels, ⟨rfl, hfetch⟩, rfl, ?_⟩
  intro h
  obtain ⟨hpin, _⟩ := (h 0 _ rfl).2 ⟨rfl, rfl⟩
  exact absurd hpin (by decide)

theorem run_protects_iff_writeBack :
    ∃ trace t, Run PoolStep (⟨BufferPool.new 1, EphemeralStorage.new⟩ : PoolState EphemeralStorage)
        trace t ∧
      trace.map Transition.label =
        [.fetchPage ⟨1⟩, .unpinPage ⟨1⟩ true, .fetchPage ⟨2⟩] ∧
      ∀ tr ∈ trace, ∀ p, tr.label = .fetchPage p → Protects tr.source p tr.target := by
  refine ⟨_, _, Run.cons (PoolStep.fetchPage rfl) <| Run.cons (PoolStep.unpinPage rfl) <|
    Run.cons (PoolStep.fetchPage rfl) <| Run.nil _, rfl, ?_⟩
  refine (run_protects_iff Nat.one_pos EphemeralStorage.new
    (Run.cons (PoolStep.fetchPage rfl) <| Run.cons (PoolStep.unpinPage rfl) <|
    Run.cons (PoolStep.fetchPage rfl) <| Run.nil _)).mpr ?_
  intro tr htr p hlabel
  simp only [List.mem_cons, List.not_mem_nil, or_false] at htr
  rcases htr with rfl | rfl | rfl
  · exact Or.inr (Or.inr ⟨_, List.mem_cons_self, rfl⟩)
  · cases hlabel
  · exact Or.inr (Or.inr ⟨_, List.mem_cons_self, rfl⟩)

end Runs

end PostgressRs.BufferCache.PoolInvariants
