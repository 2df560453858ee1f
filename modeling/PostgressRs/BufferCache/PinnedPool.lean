import Mathlib.Data.Finset.Card
import PostgressRs.BufferCache.PoolInvariants
import PostgressRs.BufferCache.SharedCache

/-!
A pool that is only fetched from and invalidated, as the executor uses it: a
page stays in its slot until it is invalidated, and a batch fetch returns for
each page the bytes in its slot, or those on disk if it has none.
-/

namespace PostgressRs.BufferCache.PinnedPool

open PostgressRs.BufferCache.PagePool
open PostgressRs.BufferCache.PoolInvariants
open PostgressRs.BufferCache.SharedCache
open PostgressRs.Lib.ByteBuffer
open PostgressRs.Lib.Procedure
open PostgressRs.Storage.PageStore
open PostgressRs.Types

section Slots

/-- The slot a page is mapped to. -/
def slotOf (pool : BufferPool) (p : PageId) : Option (Nat × Buffer) :=
  match pool.pageMap.lookup p with
  | some i => pool.buffers[i]?.map fun buf => (i, buf)
  | none => none

theorem slotOf_eq_some {pool : BufferPool} {p : PageId} {i : Nat} {buf : Buffer} :
    slotOf pool p = some (i, buf) ↔
      pool.pageMap.lookup p = some i ∧ pool.buffers[i]? = some buf := by
  unfold slotOf
  cases hlookup : pool.pageMap.lookup p with
  | none => simp
  | some j =>
      simp only [Option.map_eq_some_iff, Prod.mk.injEq, Option.some.injEq]
      constructor
      · rintro ⟨buf', hbuf', rfl, rfl⟩
        exact ⟨rfl, hbuf'⟩
      · rintro ⟨rfl, hbuf⟩
        exact ⟨buf, hbuf, rfl, rfl⟩

/-- Every mapped slot is pinned and clean and every other slot is unpinned; only
pages of `pages` are mapped. -/
structure Pinned (pool : BufferPool) (pages : List PageId) : Prop where
  sound : Sound pool
  consistent : MapConsistent pool
  clean : ∀ buf ∈ pool.buffers, buf.isDirty = false
  pinned : ∀ p i buf, slotOf pool p = some (i, buf) → buf.pinCount ≠ 0
  unpinned : ∀ i buf, pool.buffers[i]? = some buf → (∀ p, pool.pageMap.lookup p ≠ some i) →
    buf.pinCount = 0
  mapped_mem : ∀ p i, pool.pageMap.lookup p = some i → p ∈ pages

variable {pool : BufferPool} {pages : List PageId}

theorem Pinned.mono {pages' : List PageId} (h : Pinned pool pages)
    (hsub : ∀ p ∈ pages, p ∈ pages') : Pinned pool pages' :=
  ⟨h.sound, h.consistent, h.clean, h.pinned, h.unpinned,
    fun p i hp => hsub p (h.mapped_mem p i hp)⟩

theorem pinned_new {poolSize : Nat} (hpos : 0 < poolSize) (pages : List PageId) :
    Pinned (BufferPool.new poolSize) pages := by
  have hmap : ∀ p i, (BufferPool.new poolSize).pageMap.lookup p ≠ some i := by
    intro p i
    simp [BufferPool.new]
  refine ⟨sound_new hpos, ?_, ?_, ?_, ?_, ?_⟩
  · intro p i hp
    exact absurd hp (hmap p i)
  · intro buf hbuf
    rw [List.eq_of_mem_replicate hbuf]
    rfl
  · intro p i buf hslot
    exact absurd (slotOf_eq_some.mp hslot).1 (hmap p i)
  · intro i buf hbuf _
    rw [List.eq_of_mem_replicate (List.mem_of_getElem? hbuf)]
    rfl
  · intro p i hp
    exact absurd hp (hmap p i)

theorem Pinned.slot (h : Pinned pool pages) {p : PageId} {i : Nat}
    (hp : pool.pageMap.lookup p = some i) : ∃ buf, slotOf pool p = some (i, buf) := by
  obtain ⟨⟨buf, hbuf, _⟩, _⟩ := h.consistent p i hp
  exact ⟨buf, slotOf_eq_some.mpr ⟨hp, hbuf⟩⟩

theorem slotOf_eq_none_iff (h : Pinned pool pages) {p : PageId} :
    slotOf pool p = none ↔ pool.pageMap.lookup p = none := by
  constructor
  · intro hslot
    cases hp : pool.pageMap.lookup p with
    | none => rfl
    | some i =>
        obtain ⟨buf, hbuf⟩ := h.slot hp
        rw [hslot] at hbuf
        cases hbuf
  · intro hp
    rw [slotOf, hp]

/-- With fewer pages mapped than slots, some slot is free. -/
theorem exists_free_slot (h : Pinned pool pages) (hlen : pages.length ≤ pool.poolSize)
    {p : PageId} (hp : p ∈ pages) (hmiss : pool.pageMap.lookup p = none) :
    ∃ i, i < pool.poolSize ∧ ∀ q, pool.pageMap.lookup q ≠ some i := by
  set used := ((pages.erase p).filterMap fun q => pool.pageMap.lookup q).toFinset with hused
  have hcard : used.card < (Finset.range pool.poolSize).card := by
    calc
      used.card ≤ ((pages.erase p).filterMap fun q => pool.pageMap.lookup q).length :=
        List.toFinset_card_le _
      _ ≤ (pages.erase p).length := List.length_filterMap_le _ _
      _ < pages.length := by
        rw [List.length_erase_of_mem hp]
        have := List.length_pos_of_mem hp
        omega
      _ ≤ pool.poolSize := hlen
      _ = (Finset.range pool.poolSize).card := (Finset.card_range _).symm
  obtain ⟨i, hi, hfree⟩ := Finset.exists_mem_notMem_of_card_lt_card hcard
  refine ⟨i, Finset.mem_range.mp hi, ?_⟩
  intro q hq
  have hne : q ≠ p := by
    rintro rfl
    rw [hmiss] at hq
    cases hq
  apply hfree
  rw [hused, List.mem_toFinset, List.mem_filterMap]
  exact ⟨q, (List.mem_erase_of_ne hne).mpr (h.mapped_mem q i hq), hq⟩

/-- The sweep leaves pinned slots as they are. -/
theorem clockSweep_pinned {poolSize rounds : Nat} {buffers buffers' : List Buffer} {hand : Nat}
    {swept : Option Nat}
    (h : BufferPool.clockSweep poolSize rounds buffers hand = some (buffers', swept))
    {i : Nat} {buf : Buffer} (hbuf : buffers[i]? = some buf) (hpin : buf.pinCount ≠ 0) :
    buffers'[i]? = some buf := by
  induction rounds generalizing buffers hand with
  | zero =>
      cases h
      exact hbuf
  | succ rounds ih =>
      obtain ⟨next, hnext, h⟩ := Option.bind_eq_some_iff.mp h
      split at h
      · rename_i hfree
        split at h
        · refine ih h ?_
          have hne : hand ≠ i := by
            rintro rfl
            rw [hnext] at hbuf
            cases hbuf
            exact hpin hfree
          rw [List.getElem?_set_ne hne, hbuf]
        · cases h
          exact hbuf
      · exact ih h hbuf

theorem findVictim_pinned {pool' : BufferPool} {slot : Nat}
    (h : pool.findVictim = some (pool', slot)) {i : Nat} {buf : Buffer}
    (hbuf : pool.buffers[i]? = some buf) (hpin : buf.pinCount ≠ 0) :
    pool'.buffers[i]? = some buf := by
  obtain ⟨⟨buffers, swept⟩, hsweep, h⟩ := Option.bind_eq_some_iff.mp h
  have hkept := clockSweep_pinned hsweep hbuf hpin
  cases swept with
  | some victim =>
      cases h
      exact hkept
  | none =>
      simp only at h
      split at h
      · cases h
        exact hkept
      · cases h
        exact hkept

end Slots

section Fetch

variable {σ : Type} [StorageTrait σ]

/-- What a fetch of `p` finds: the bytes in its slot, or those on disk. -/
def pooledRead (s : PoolState σ) (p : PageId) : Except String Bytes :=
  match slotOf s.pool p with
  | some (_, buf) => .ok buf.data
  | none => readPage s.storage p

theorem pooledRead_slot {s : PoolState σ} {p : PageId} {i : Nat} {buf : Buffer}
    (h : slotOf s.pool p = some (i, buf)) : pooledRead s p = .ok buf.data := by
  rw [pooledRead, h]

theorem pooledRead_disk {s : PoolState σ} {p : PageId} (h : slotOf s.pool p = none) :
    pooledRead s p = readPage s.storage p := by
  rw [pooledRead, h]

/-- A counter of the page's slot is at `u32::MAX`. -/
def Saturated (pool : BufferPool) (p : PageId) : Prop :=
  ∃ i buf, slotOf pool p = some (i, buf) ∧
    (buf.usageCount = 0xFFFFFFFF ∨ buf.pinCount = 0xFFFFFFFF)

/-- A fetch of `p` into slot `i` returned and left the other pages alone. -/
structure Fetched (s : PoolState σ) (p : PageId) (i : Nat) (s' : PoolState σ) : Prop where
  storage_eq : s'.storage = s.storage
  poolSize_eq : s'.pool.poolSize = s.pool.poolSize
  slot : ∃ buf, slotOf s'.pool p = some (i, buf) ∧ pooledRead s p = .ok buf.data
  others : ∀ q, q ≠ p → slotOf s'.pool q = slotOf s.pool q
  unsaturated : slotOf s.pool p = none → ¬Saturated s'.pool p

theorem Fetched.pooledRead_eq {s s' : PoolState σ} {p : PageId} {i : Nat}
    (h : Fetched s p i s') (q : PageId) : pooledRead s' q = pooledRead s q := by
  by_cases hqp : q = p
  · subst hqp
    obtain ⟨buf, hslot, hread⟩ := h.slot
    rw [hread, pooledRead_slot hslot]
  · rw [pooledRead, pooledRead, h.others q hqp, h.storage_eq]

theorem checkedIncr_eq_none {x : UInt32} : checkedIncr x = none ↔ x = 0xFFFFFFFF := by
  unfold checkedIncr
  split
  · simp_all
  · simp_all

theorem checkedIncr_ne_zero {x y : UInt32} (h : checkedIncr x = some y) : y ≠ 0 := by
  unfold checkedIncr at h
  split at h
  · cases h
  · rename_i hne
    cases h
    intro hzero
    apply hne
    have hx : x = 0 - 1 := by rw [← hzero, UInt32.add_sub_cancel]
    rw [hx]
    rfl

variable {s : PoolState σ} {pages : List PageId} {p : PageId}

theorem pinned_set {pool : BufferPool} {i : Nat} {buf buf' : Buffer}
    (h : Pinned pool pages) (hslot : slotOf pool p = some (i, buf))
    (hpage : buf'.pageId = buf.pageId) (hclean : buf'.isDirty = false) (hpin : buf'.pinCount ≠ 0) :
    Pinned { pool with buffers := pool.buffers.set i buf' } pages := by
  obtain ⟨hp, hbuf⟩ := slotOf_eq_some.mp hslot
  have hlt : i < pool.buffers.length := (List.getElem?_eq_some_iff.mp hbuf).1
  have hself : (pool.buffers.set i buf')[i]? = some buf' := List.getElem?_set_self hlt
  refine ⟨⟨?_, h.sound.hand_lt, h.sound.mapped_lt⟩, ?_, ?_, ?_, ?_, h.mapped_mem⟩
  · rw [List.length_set]
    exact h.sound.length_eq
  · apply mapConsistent_of_held
    intro q j hq
    obtain ⟨⟨held, hheld, hid⟩, _⟩ := h.consistent q j hq
    by_cases hj : j = i
    · subst hj
      rw [hbuf] at hheld
      cases hheld
      exact ⟨buf', hself, hpage.trans hid⟩
    · exact ⟨held, (List.getElem?_set_ne (Ne.symm hj)).trans hheld, hid⟩
  · intro held hheld
    rcases List.mem_or_eq_of_mem_set hheld with hheld | rfl
    · exact h.clean held hheld
    · exact hclean
  · intro q j held hq
    obtain ⟨hlookup, hheld⟩ := slotOf_eq_some.mp hq
    by_cases hj : j = i
    · subst hj
      simp only [hself] at hheld
      cases hheld
      exact hpin
    · simp only [List.getElem?_set_ne (Ne.symm hj)] at hheld
      exact h.pinned q j held (slotOf_eq_some.mpr ⟨hlookup, hheld⟩)
  · intro j held hheld hfree
    have hj : j ≠ i := by
      rintro rfl
      exact hfree p hp
    simp only [List.getElem?_set_ne (Ne.symm hj)] at hheld
    exact h.unpinned j held hheld hfree

theorem slotOf_set_of_ne {pool : BufferPool} {i : Nat} {buf : Buffer} (buf' : Buffer)
    (h : Pinned pool pages) (hslot : slotOf pool p = some (i, buf)) {q : PageId} (hq : q ≠ p) :
    slotOf { pool with buffers := pool.buffers.set i buf' } q = slotOf pool q := by
  obtain ⟨hp, _⟩ := slotOf_eq_some.mp hslot
  unfold slotOf
  cases hlookup : pool.pageMap.lookup q with
  | none => rfl
  | some j =>
      have hj : i ≠ j := by
        rintro rfl
        exact hq ((h.consistent p i hp).2 q hlookup)
      simp only [List.getElem?_set_ne hj]

theorem fetchPage_mapped (h : Pinned s.pool pages) {i : Nat} {buf : Buffer}
    (hslot : slotOf s.pool p = some (i, buf)) :
    (fetchPage p s = .panic ∧ Saturated s.pool p) ∨
      ∃ s', fetchPage p s = .ok i s' ∧ Fetched s p i s' ∧ Pinned s'.pool pages := by
  obtain ⟨hp, hbuf⟩ := slotOf_eq_some.mp hslot
  have hlt : i < s.pool.buffers.length := (List.getElem?_eq_some_iff.mp hbuf).1
  have hbuffer : buffer i s = .ok buf s := by simp [buffer, hbuf]
  rw [fetchPage_hit hp, pinSlot]
  cases husage : checkedIncr buf.usageCount with
  | none =>
      refine Or.inl ⟨?_, i, buf, hslot, Or.inl (checkedIncr_eq_none.mp husage)⟩
      simp [bind_apply, hbuffer, husage]
  | some usageCount =>
      cases hpin : checkedIncr buf.pinCount with
      | none =>
          refine Or.inl ⟨?_, i, buf, hslot, Or.inr (checkedIncr_eq_none.mp hpin)⟩
          simp [bind_apply, hbuffer, husage, hpin]
      | some pinCount =>
          set buf' : Buffer := { buf with usageCount := usageCount, pinCount := pinCount }
          have hclean : buf'.isDirty = false := h.clean buf (List.mem_of_getElem? hbuf)
          have hread : pooledRead s p = .ok buf.data := pooledRead_slot hslot
          refine Or.inr ⟨⟨{ s.pool with buffers := s.pool.buffers.set i buf' }, s.storage⟩, ?_,
            ⟨rfl, rfl, ⟨buf', ?_, hread⟩, ?_, ?_⟩,
            pinned_set h hslot rfl hclean (checkedIncr_ne_zero hpin)⟩
          · simp [bind_apply, hbuffer, husage, hpin, setBuffer, buf']
          · exact slotOf_eq_some.mpr ⟨hp, List.getElem?_set_self hlt⟩
          · intro q hq
            exact slotOf_set_of_ne buf' h hslot hq
          · intro hnone
            rw [hslot] at hnone
            cases hnone

section Victim

variable {pool pool' : BufferPool} {slot : Nat}

omit [StorageTrait σ] in
/-- The sweep leaves every mapped slot as it is. -/
theorem slotOf_swept (h : Pinned pool pages) (hfind : pool.findVictim = some (pool', slot))
    (hv : VictimFound pool pool' slot) (q : PageId) : slotOf pool' q = slotOf pool q := by
  cases hlookup : pool.pageMap.lookup q with
  | none => simp only [slotOf, hv.pageMap_eq, hlookup]
  | some j =>
      obtain ⟨buf, hbuf⟩ := h.slot hlookup
      have hkept := findVictim_pinned hfind (slotOf_eq_some.mp hbuf).2 (h.pinned q j buf hbuf)
      rw [hbuf, slotOf_eq_some, hv.pageMap_eq]
      exact ⟨hlookup, hkept⟩

theorem Pinned.swept (h : Pinned pool pages) (hfind : pool.findVictim = some (pool', slot))
    (hv : VictimFound pool pool' slot) : Pinned pool' pages where
  sound := hv.sound h.sound
  consistent := hv.mapConsistent h.consistent
  clean buf hbuf := by
    obtain ⟨j, hj⟩ := List.mem_iff_getElem?.mp hbuf
    obtain ⟨count, hcount⟩ := getElem?_of_map_sansUsage hv.sameButUsage hj
    exact h.clean { buf with usageCount := count } (List.mem_of_getElem? hcount)
  pinned q j buf hq := by
    rw [slotOf_swept h hfind hv] at hq
    exact h.pinned q j buf hq
  unpinned j buf hbuf hfree := by
    rw [hv.pageMap_eq] at hfree
    obtain ⟨count, hcount⟩ := getElem?_of_map_sansUsage hv.sameButUsage hbuf
    exact h.unpinned j { buf with usageCount := count } hcount hfree
  mapped_mem q j hq := by
    rw [hv.pageMap_eq] at hq
    exact h.mapped_mem q j hq

/-- As long as a slot is free, the victim is. -/
theorem Pinned.victim_free (h : Pinned pool pages) (hv : VictimFound pool pool' slot)
    {free : Nat} (hfree : free < pool.poolSize)
    (hunmapped : ∀ q, pool.pageMap.lookup q ≠ some free) (q : PageId) :
    pool.pageMap.lookup q ≠ some slot := by
  obtain ⟨freeBuf, hfreeBuf⟩ := h.sound.buffer hfree
  have hfreePin := h.unpinned free freeBuf hfreeBuf hunmapped
  obtain ⟨old, hold, holdPin⟩ := hv.unpinned ⟨freeBuf, List.mem_of_getElem? hfreeBuf, hfreePin⟩
  intro hq
  exact h.pinned q slot old (slotOf_eq_some.mpr ⟨hq, hold⟩) holdPin

end Victim

section Load

variable {pool : BufferPool} {slot : Nat} {data : Bytes}

theorem slotOf_load_self (h : Pinned pool pages) (hslot : slot < pool.poolSize) :
    slotOf (load pool slot p data) p = some (slot, ⟨p, data, false, 1, 1⟩) := by
  rw [slotOf_eq_some]
  refine ⟨AList.lookup_insert _, List.getElem?_set_self ?_⟩
  rw [h.sound.length_eq]
  exact hslot

theorem slotOf_load_of_ne (h : Pinned pool pages)
    (hfree : ∀ q, pool.pageMap.lookup q ≠ some slot) {q : PageId} (hq : q ≠ p) :
    slotOf (load pool slot p data) q = slotOf pool q := by
  cases hlookup : pool.pageMap.lookup q with
  | none => simp only [slotOf, load, AList.lookup_insert_ne hq, hlookup]
  | some j =>
      obtain ⟨buf, hbuf⟩ := h.slot hlookup
      have hj : slot ≠ j := by
        rintro rfl
        exact hfree q hlookup
      rw [hbuf, slotOf_eq_some]
      constructor
      · simp only [load, AList.lookup_insert_ne hq, hlookup]
      · exact (List.getElem?_set_ne hj).trans (slotOf_eq_some.mp hbuf).2

/-- A listed page is loaded into a free slot. -/
theorem Pinned.load (h : Pinned pool pages) (hp : p ∈ pages) (hslot : slot < pool.poolSize)
    (hfree : ∀ q, pool.pageMap.lookup q ≠ some slot) (hmiss : pool.pageMap.lookup p = none) :
    Pinned (load pool slot p data) pages where
  sound := sound_load h.sound hslot p data
  consistent := (mapConsistent_load_iff h.sound h.consistent hslot hmiss data).mpr hfree
  clean buf hbuf := by
    rcases List.mem_or_eq_of_mem_set hbuf with hbuf | rfl
    · exact h.clean buf hbuf
    · rfl
  pinned q j buf hq := by
    by_cases hqp : q = p
    · subst hqp
      rw [slotOf_load_self h hslot] at hq
      cases hq
      exact (by decide : (1 : UInt32) ≠ 0)
    · rw [slotOf_load_of_ne h hfree hqp] at hq
      exact h.pinned q j buf hq
  unpinned j buf hbuf hjfree := by
    have hj : slot ≠ j := by
      rintro rfl
      exact hjfree p (AList.lookup_insert _)
    refine h.unpinned j buf ((List.getElem?_set_ne hj).symm.trans hbuf) ?_
    intro q hq
    have hqp : q ≠ p := by
      rintro rfl
      rw [hmiss] at hq
      cases hq
    apply hjfree q
    simp only [PoolInvariants.load, AList.lookup_insert_ne hqp, hq]
  mapped_mem q j hq := by
    by_cases hqp : q = p
    · rw [hqp]
      exact hp
    · simp only [PoolInvariants.load, AList.lookup_insert_ne hqp] at hq
      exact h.mapped_mem q j hq

end Load

/-- A page that is not mapped goes into a free slot. -/
theorem fetchPage_unmapped (h : Pinned s.pool pages) (hlen : pages.length ≤ s.pool.poolSize)
    (hp : p ∈ pages) (hmiss : s.pool.pageMap.lookup p = none) {data : Bytes}
    (hread : readPage s.storage p = .ok data) :
    ∃ i s', fetchPage p s = .ok i s' ∧ Fetched s p i s' ∧ Pinned s'.pool pages := by
  obtain ⟨pool, slot, victim, hfind, hv, hvictim, hmissed⟩ := fetchPage_missed h.sound hmiss
  obtain ⟨free, hfree, hunmapped⟩ := exists_free_slot h hlen hp hmiss
  have hpool : Pinned pool pages := h.swept hfind hv
  have hslot : slot < pool.poolSize := by
    rw [hv.poolSize_eq]
    exact hv.slot_lt
  have hslotFree : ∀ q, pool.pageMap.lookup q ≠ some slot := by
    rw [hv.pageMap_eq]
    exact h.victim_free hv hfree hunmapped
  have hmissPool : pool.pageMap.lookup p = none := by rw [hv.pageMap_eq, hmiss]
  generalize houtcome : fetchPage p s = outcome at hmissed
  cases hmissed with
  | unread herror =>
      rw [hread] at herror
      cases herror
  | unwritten _ hdirty _ _ =>
      rw [hpool.clean victim (List.mem_of_getElem? hvictim)] at hdirty
      cases hdirty
  | writtenBack _ hdirty _ _ =>
      rw [hpool.clean victim (List.mem_of_getElem? hvictim)] at hdirty
      cases hdirty
  | @overwritten data' hdata _ =>
      rw [hread] at hdata
      cases hdata
      refine ⟨slot, _, rfl,
        ⟨rfl, hv.poolSize_eq, ⟨_, slotOf_load_self hpool hslot, ?_⟩, ?_, ?_⟩,
        hpool.load hp hslot hslotFree hmissPool⟩
      · rw [pooledRead_disk ((slotOf_eq_none_iff h).mpr hmiss), hread]
      · intro q hq
        rw [slotOf_load_of_ne hpool hslotFree hq, slotOf_swept h hfind hv]
      · rintro - ⟨i, buf, hbuf, hmax⟩
        rw [slotOf_load_self hpool hslot] at hbuf
        cases hbuf
        have hone : (1 : UInt32) ≠ 0xFFFFFFFF := by decide
        exact hmax.elim hone hone

/-- A fetch of a listed page panics on a full counter or returns the page. -/
theorem fetchPage_pinned (h : Pinned s.pool pages) (hlen : pages.length ≤ s.pool.poolSize)
    (hp : p ∈ pages) {data : Bytes} (hread : pooledRead s p = .ok data) :
    (fetchPage p s = .panic ∧ Saturated s.pool p) ∨
      ∃ i s', fetchPage p s = .ok i s' ∧ Fetched s p i s' ∧ Pinned s'.pool pages := by
  cases hslot : slotOf s.pool p with
  | some entry =>
      obtain ⟨i, buf⟩ := entry
      rcases fetchPage_mapped h hslot with hpanic | ⟨s', hfetch, hfetched, hpinned⟩
      · exact Or.inl hpanic
      · exact Or.inr ⟨i, s', hfetch, hfetched, hpinned⟩
  | none =>
      rw [pooledRead_disk hslot] at hread
      exact Or.inr (fetchPage_unmapped h hlen hp ((slotOf_eq_none_iff h).mp hslot) hread)

end Fetch

section Batch

variable {σ : Type} [StorageTrait σ] {s : PoolState σ} {pages : List PageId}

/-- What a batch fetch changes: pages may have been brought in. -/
structure Loaded (s s' : PoolState σ) : Prop where
  storage_eq : s'.storage = s.storage
  poolSize_eq : s'.pool.poolSize = s.pool.poolSize
  pooledRead_eq : ∀ q, pooledRead s' q = pooledRead s q

theorem fetchIndices_pinned (h : Pinned s.pool pages) (hlen : pages.length ≤ s.pool.poolSize)
    {ids : List PageId} (hnodup : ids.Nodup) (hmem : ∀ p ∈ ids, p ∈ pages)
    (hread : ∀ p ∈ ids, ∃ data, pooledRead s p = .ok data) :
    (fetchIndices ids s = .panic ∧ ∃ p ∈ ids, Saturated s.pool p) ∨
      ∃ indices s', fetchIndices ids s = .ok indices s' ∧ Loaded s s' ∧
        Pinned s'.pool pages ∧ (∀ q, q ∉ ids → slotOf s'.pool q = slotOf s.pool q) ∧
        (∀ q ∈ ids, slotOf s.pool q = none → ¬Saturated s'.pool q) ∧
        List.Forall₂ (fun p entry => entry.1 = p ∧ ∃ buf, slotOf s'.pool p = some (entry.2, buf))
          ids indices := by
  induction ids generalizing s with
  | nil =>
      exact Or.inr ⟨[], s, rfl, ⟨rfl, rfl, fun _ => rfl⟩, h, fun _ _ => rfl, by simp,
        List.Forall₂.nil⟩
  | cons p ids ih =>
      obtain ⟨hnot, hnodup⟩ := List.nodup_cons.mp hnodup
      obtain ⟨data, hdata⟩ := hread p List.mem_cons_self
      rcases fetchPage_pinned h hlen (hmem p List.mem_cons_self) hdata with
        ⟨hpanic, hsat⟩ | ⟨i, s₁, hfetch, hfetched, hpinned⟩
      · refine Or.inl ⟨?_, p, List.mem_cons_self, hsat⟩
        rw [fetchIndices, bind_panic hpanic]
      · have hrest : ∀ q ∈ ids, ∃ data, pooledRead s₁ q = .ok data := by
          intro q hq
          rw [hfetched.pooledRead_eq q]
          exact hread q (List.mem_cons_of_mem _ hq)
        have hne : ∀ q ∈ ids, q ≠ p := by
          rintro q hq rfl
          exact hnot hq
        rcases ih hpinned (by rw [hfetched.poolSize_eq]; exact hlen) hnodup
            (fun q hq => hmem q (List.mem_cons_of_mem _ hq)) hrest with
          ⟨hpanic, q, hq, hsat⟩ | ⟨indices, s', hindices, hloaded, hpinned', hothers, hunsat, hall⟩
        · refine Or.inl ⟨?_, q, List.mem_cons_of_mem _ hq, ?_⟩
          · rw [fetchIndices, bind_ok hfetch, bind_panic hpanic]
          · obtain ⟨j, buf, hslot, hmax⟩ := hsat
            rw [hfetched.others q (hne q hq)] at hslot
            exact ⟨j, buf, hslot, hmax⟩
        · refine Or.inr ⟨(p, i) :: indices, s', ?_, ⟨?_, ?_, ?_⟩, hpinned', ?_, ?_, ?_⟩
          · rw [fetchIndices, bind_ok hfetch, bind_ok hindices]
            rfl
          · exact hloaded.storage_eq.trans hfetched.storage_eq
          · exact hloaded.poolSize_eq.trans hfetched.poolSize_eq
          · intro q
            rw [hloaded.pooledRead_eq, hfetched.pooledRead_eq]
          · intro q hq
            rw [List.mem_cons, not_or] at hq
            rw [hothers q hq.2, hfetched.others q hq.1]
          · intro q hq hnone
            rcases List.mem_cons.mp hq with rfl | hq
            · rintro ⟨j, buf, hslot, hmax⟩
              rw [hothers q hnot] at hslot
              exact hfetched.unsaturated hnone ⟨j, buf, hslot, hmax⟩
            · exact hunsat q hq ((hfetched.others q (hne q hq)).trans hnone)
          · obtain ⟨buf, hslot, _⟩ := hfetched.slot
            refine List.Forall₂.cons ⟨rfl, buf, ?_⟩ hall
            rw [hothers p hnot, hslot]

theorem readIndices_ok {ids : List PageId} {indices : List (PageId × Nat)}
    (h : List.Forall₂ (fun p entry => entry.1 = p ∧ ∃ buf, slotOf s.pool p = some (entry.2, buf))
      ids indices) :
    ∃ result, readIndices indices s = .ok result s ∧
      List.Forall₂ (fun p entry => entry.1 = p ∧ pooledRead s p = .ok entry.2) ids result := by
  induction h with
  | nil => exact ⟨[], rfl, List.Forall₂.nil⟩
  | @cons p entry ids indices hentry _ ih =>
      obtain ⟨q, i⟩ := entry
      obtain ⟨rfl, buf, hslot⟩ := hentry
      obtain ⟨result, hresult, hall⟩ := ih
      have hbuffer : buffer i s = .ok buf s := by
        simp [buffer, (slotOf_eq_some.mp hslot).2]
      refine ⟨(q, buf.data) :: result, ?_, List.Forall₂.cons ⟨rfl, pooledRead_slot hslot⟩ hall⟩
      rw [readIndices, bind_ok hbuffer, bind_ok hresult]
      rfl

/-- A batch fetch of all listed pages panics on a full counter or returns what
`pooledRead` says, and changes no later `pooledRead`. -/
theorem fetchPagesBatch_pinned (h : Pinned s.pool pages) (hlen : pages.length ≤ s.pool.poolSize)
    (hnodup : pages.Nodup) (hread : ∀ p ∈ pages, ∃ data, pooledRead s p = .ok data) :
    (fetchPagesBatch pages s = .panic ∧ ∃ p ∈ pages, Saturated s.pool p) ∨
      ∃ result s', fetchPagesBatch pages s = .ok result s' ∧ Loaded s s' ∧
        Pinned s'.pool pages ∧ (∀ p ∈ pages, slotOf s'.pool p ≠ none) ∧
        (∀ p ∈ pages, slotOf s.pool p = none → ¬Saturated s'.pool p) ∧
        List.Forall₂ (fun p entry => entry.1 = p ∧ pooledRead s p = .ok entry.2) pages result := by
  rcases fetchIndices_pinned h hlen hnodup (fun _ hp => hp) hread with
    ⟨hpanic, hsat⟩ | ⟨indices, s', hindices, hloaded, hpinned, _, hunsat, hall⟩
  · refine Or.inl ⟨?_, hsat⟩
    rw [fetchPagesBatch, bind_panic hpanic]
  · obtain ⟨result, hresult, hread⟩ := readIndices_ok hall
    refine Or.inr ⟨result, s', ?_, hloaded, hpinned, ?_, hunsat, ?_⟩
    · rw [fetchPagesBatch, bind_ok hindices, hresult]
    · intro p hp hnone
      obtain ⟨i, hi, rfl⟩ := List.getElem_of_mem hp
      have hi' : i < indices.length := by rw [← hall.length_eq]; exact hi
      obtain ⟨_, buf, hslot⟩ := List.Forall₂.get hall hi hi'
      simp only [List.get_eq_getElem, hnone] at hslot
      cases hslot
    · apply hread.imp
      rintro p entry ⟨hfst, hdata⟩
      rw [hloaded.pooledRead_eq] at hdata
      exact ⟨hfst, hdata⟩

end Batch

section Invalidate

variable {σ : Type} {s s' : PoolState σ} {pages : List PageId}

section Freed

variable {pool : BufferPool} {p : PageId} {i : Nat} {buf : Buffer}

/-- The pool without a page, whose slot has become free. -/
def freed (pool : BufferPool) (p : PageId) (i : Nat) (buf : Buffer) : BufferPool where
  poolSize := pool.poolSize
  buffers := pool.buffers.set i { buf with isDirty := false, usageCount := 0, pinCount := 0 }
  pageMap := pool.pageMap.erase p
  nextVictim := pool.nextVictim

theorem lookup_freed (h : Pinned pool pages) (hlookup : pool.pageMap.lookup p = some i)
    {q : PageId} {j : Nat} (hq : (freed pool p i buf).pageMap.lookup q = some j) :
    q ≠ p ∧ pool.pageMap.lookup q = some j ∧ i ≠ j := by
  obtain ⟨hqp, hq⟩ := lookup_of_lookup_erase hq
  refine ⟨hqp, hq, ?_⟩
  rintro rfl
  exact hqp ((h.consistent p i hlookup).2 q hq)

theorem slotOf_freed_self : slotOf (freed pool p i buf) p = none := by
  unfold slotOf
  rw [show (freed pool p i buf).pageMap.lookup p = none from AList.lookup_erase p _]

theorem slotOf_freed_of_ne (h : Pinned pool pages) (hlookup : pool.pageMap.lookup p = some i)
    {q : PageId} (hqp : q ≠ p) : slotOf (freed pool p i buf) q = slotOf pool q := by
  have hmap : (freed pool p i buf).pageMap.lookup q = pool.pageMap.lookup q :=
    AList.lookup_erase_ne hqp
  unfold slotOf
  rw [hmap]
  cases hq : pool.pageMap.lookup q with
  | none => rfl
  | some j =>
      obtain ⟨_, _, hj⟩ := lookup_freed h hlookup (hmap.trans hq)
      simp only [freed, List.getElem?_set_ne hj]

theorem Pinned.freed (h : Pinned pool pages) (hlookup : pool.pageMap.lookup p = some i)
    (hbuf : pool.buffers[i]? = some buf) : Pinned (freed pool p i buf) pages where
  sound := by
    refine ⟨?_, h.sound.hand_lt, fun q j hq => h.sound.mapped_lt q j ?_⟩
    · exact (List.length_set).trans h.sound.length_eq
    · exact (lookup_freed h hlookup hq).2.1
  consistent := by
    apply mapConsistent_of_held
    intro q j hq
    obtain ⟨_, hq, hj⟩ := lookup_freed h hlookup hq
    obtain ⟨⟨held, hheld, hid⟩, _⟩ := h.consistent q j hq
    exact ⟨held, (List.getElem?_set_ne hj).trans hheld, hid⟩
  clean held hheld := by
    rcases List.mem_or_eq_of_mem_set hheld with hheld | rfl
    · exact h.clean held hheld
    · rfl
  pinned q j held hq := by
    have hqp := (lookup_freed h hlookup (slotOf_eq_some.mp hq).1).1
    rw [slotOf_freed_of_ne h hlookup hqp] at hq
    exact h.pinned q j held hq
  unpinned j held hheld hfree := by
    by_cases hj : i = j
    · subst hj
      have hlt : i < pool.buffers.length := (List.getElem?_eq_some_iff.mp hbuf).1
      rw [PinnedPool.freed, List.getElem?_set_self hlt] at hheld
      cases hheld
      rfl
    · refine h.unpinned j held ((List.getElem?_set_ne hj).symm.trans hheld) ?_
      intro q hq
      have hqp : q ≠ p := by
        rintro rfl
        rw [hlookup] at hq
        cases hq
        exact hj rfl
      exact hfree q ((AList.lookup_erase_ne hqp).trans hq)
  mapped_mem q j hq := h.mapped_mem q j (lookup_freed h hlookup hq).2.1

end Freed

/-- Invalidation frees the page's slot and leaves the other pages alone. -/
theorem invalidatePage_pinned (h : Pinned s.pool pages) (p : PageId) :
    ∃ s', invalidatePage p s = .ok () s' ∧ s'.storage = s.storage ∧ Pinned s'.pool pages ∧
      s'.pool.poolSize = s.pool.poolSize ∧ slotOf s'.pool p = none ∧
      ∀ q, q ≠ p → slotOf s'.pool q = slotOf s.pool q := by
  cases hlookup : s.pool.pageMap.lookup p with
  | none =>
      refine ⟨s, ?_, rfl, h, rfl, (slotOf_eq_none_iff h).mpr hlookup, fun _ _ => rfl⟩
      simp [invalidatePage, lookupPage, bind_apply, hlookup]
  | some i =>
      obtain ⟨buf, hslot⟩ := h.slot hlookup
      have hbuf := (slotOf_eq_some.mp hslot).2
      refine ⟨⟨freed s.pool p i buf, s.storage⟩, ?_, rfl, h.freed hlookup hbuf, rfl,
        slotOf_freed_self, fun q hqp => slotOf_freed_of_ne h hlookup hqp⟩
      simp [invalidatePage, lookupPage, bind_apply, hlookup, modifyMap, buffer, hbuf, setBuffer,
        freed]

end Invalidate

end PostgressRs.BufferCache.PinnedPool
