import PostgressRs.BufferCache.PoolInvariants

/-!
What the clock sweep leaves of the buffers: nothing changes but the usage
counts of unpinned ones, and these only go down.
-/

namespace PostgressRs.BufferCache.ClockVictim

open PostgressRs.BufferCache.PagePool
open PostgressRs.BufferCache.PoolInvariants

/-- The same buffer with a usage count that is no higher, and unchanged if it is pinned. -/
structure Lowered (buf buf' : Buffer) : Prop where
  sansUsage_eq : sansUsage buf' = sansUsage buf
  usageCount_le : buf'.usageCount ≤ buf.usageCount
  eq_of_pinned : buf.pinCount ≠ 0 → buf' = buf

theorem Lowered.refl (buf : Buffer) : Lowered buf buf :=
  ⟨rfl, UInt32.le_refl _, fun _ => rfl⟩

theorem Lowered.pinCount_eq {buf buf' : Buffer} (h : Lowered buf buf') :
    buf'.pinCount = buf.pinCount := by
  have hpin := congrArg Buffer.pinCount h.sansUsage_eq
  exact hpin

theorem Lowered.trans {buf buf' buf'' : Buffer} (h : Lowered buf buf')
    (h' : Lowered buf' buf'') : Lowered buf buf'' := by
  refine ⟨h'.sansUsage_eq.trans h.sansUsage_eq,
    UInt32.le_trans h'.usageCount_le h.usageCount_le, ?_⟩
  intro hpin
  have hpin' : buf'.pinCount ≠ 0 := by rwa [h.pinCount_eq]
  exact (h'.eq_of_pinned hpin').trans (h.eq_of_pinned hpin)

/-- Slot by slot. -/
structure AllLowered (buffers buffers' : List Buffer) : Prop where
  length_eq : buffers'.length = buffers.length
  lowered : ∀ (i : Nat) buf, buffers[i]? = some buf →
    ∃ buf', buffers'[i]? = some buf' ∧ Lowered buf buf'

theorem AllLowered.refl (buffers : List Buffer) : AllLowered buffers buffers :=
  ⟨rfl, fun _ buf hbuf => ⟨buf, hbuf, .refl buf⟩⟩

theorem AllLowered.trans {buffers buffers' buffers'' : List Buffer}
    (h : AllLowered buffers buffers') (h' : AllLowered buffers' buffers'') :
    AllLowered buffers buffers'' := by
  refine ⟨h'.length_eq.trans h.length_eq, ?_⟩
  intro i buf hbuf
  obtain ⟨buf', hbuf', hlowered⟩ := h.lowered i buf hbuf
  obtain ⟨buf'', hbuf'', hlowered'⟩ := h'.lowered i buf' hbuf'
  exact ⟨buf'', hbuf'', hlowered.trans hlowered'⟩

theorem AllLowered.set {buffers : List Buffer} {hand : Nat} {buf buf' : Buffer}
    (hbuf : buffers[hand]? = some buf) (h : Lowered buf buf') :
    AllLowered buffers (buffers.set hand buf') := by
  refine ⟨List.length_set, ?_⟩
  intro i other hother
  by_cases heq : hand = i
  · subst heq
    rw [hbuf] at hother
    cases hother
    exact ⟨buf', List.getElem?_set_self (List.getElem?_eq_some_iff.mp hbuf).1, h⟩
  · exact ⟨other, by rw [List.getElem?_set_ne heq, hother], .refl other⟩

/-- The pass over an unpinned buffer that was used. -/
theorem lowered_pred {buf : Buffer} (hpin : buf.pinCount = 0) (husage : 0 < buf.usageCount) :
    Lowered buf { buf with usageCount := buf.usageCount - 1 } := by
  refine ⟨rfl, ?_, fun hne => absurd hpin hne⟩
  have hpos := UInt32.lt_iff_toNat_lt.mp husage
  rw [UInt32.toNat_zero] at hpos
  have hone : (1 : UInt32) ≤ buf.usageCount := UInt32.le_iff_toNat_le.mpr hpos
  rw [UInt32.le_iff_toNat_le, UInt32.toNat_sub_of_le _ _ hone]
  exact Nat.sub_le _ _

theorem clockSweep_allLowered {poolSize rounds : Nat} {buffers buffers' : List Buffer}
    {hand : Nat} {swept : Option Nat}
    (h : BufferPool.clockSweep poolSize rounds buffers hand = some (buffers', swept)) :
    AllLowered buffers buffers' := by
  induction rounds generalizing buffers hand with
  | zero =>
      cases h
      exact .refl _
  | succ rounds ih =>
      rw [BufferPool.clockSweep, Option.bind_eq_bind, Option.bind_eq_some_iff] at h
      obtain ⟨buf, hbuf, hrest⟩ := h
      by_cases hpin : buf.pinCount = 0
      · rw [if_pos hpin] at hrest
        by_cases husage : 0 < buf.usageCount
        · rw [if_pos husage] at hrest
          exact (AllLowered.set hbuf (lowered_pred hpin husage)).trans (ih hrest)
        · rw [if_neg husage] at hrest
          cases hrest
          exact .refl _
      · rw [if_neg hpin] at hrest
        exact ih hrest

theorem findVictim_allLowered {pool pool' : BufferPool} {victim : Nat}
    (h : pool.findVictim = some (pool', victim)) : AllLowered pool.buffers pool'.buffers := by
  rw [BufferPool.findVictim, Option.bind_eq_bind, Option.bind_eq_some_iff] at h
  obtain ⟨⟨buffers', swept⟩, hsweep, hrest⟩ := h
  have hlowered := clockSweep_allLowered hsweep
  cases swept with
  | some i =>
      cases hrest
      exact hlowered
  | none =>
      cases hfind : buffers'.findIdx? fun buf => buf.pinCount = 0 with
      | some i =>
          simp only [hfind] at hrest
          cases hrest
          exact hlowered
      | none =>
          simp only [hfind] at hrest
          cases hrest
          exact hlowered

/-- Whatever the counts and the hand are, a pool with an unpinned buffer gives
an unpinned victim. -/
theorem findVictim_unpinned {pool : BufferPool} (hlen : pool.buffers.length = pool.poolSize)
    (hhand : pool.nextVictim < pool.poolSize)
    (hunpinned : ∃ buf ∈ pool.buffers, buf.pinCount = 0) :
    ∃ pool' victim, pool.findVictim = some (pool', victim) ∧ victim < pool.poolSize ∧
      (∃ buf, pool.buffers[victim]? = some buf ∧ buf.pinCount = 0) ∧
      pool'.poolSize = pool.poolSize ∧ pool'.pageMap = pool.pageMap ∧
      pool'.nextVictim < pool.poolSize ∧ pool'.buffers.length = pool.buffers.length ∧
      ∀ (i : Nat) buf, pool.buffers[i]? = some buf →
        ∃ count, pool'.buffers[i]? = some { buf with usageCount := count } ∧
          count ≤ buf.usageCount ∧ (buf.pinCount ≠ 0 → count = buf.usageCount) := by
  obtain ⟨pool', victim, hfind, hv⟩ := findVictim_spec hlen hhand
  have hlowered := findVictim_allLowered hfind
  refine ⟨pool', victim, hfind, hv.slot_lt, hv.unpinned hunpinned, hv.poolSize_eq, hv.pageMap_eq,
    hv.poolSize_eq ▸ hv.hand_lt, hlowered.length_eq, ?_⟩
  intro i buf hbuf
  obtain ⟨buf', hbuf', h⟩ := hlowered.lowered i buf hbuf
  obtain ⟨count, hcount⟩ := getElem?_of_map_sansUsage hv.sameButUsage.symm hbuf
  rw [hbuf', Option.some.injEq] at hcount
  subst hcount
  exact ⟨count, hbuf', h.usageCount_le,
    fun hpin => congrArg Buffer.usageCount (h.eq_of_pinned hpin)⟩

/-- Two slots, the first one pinned and the second one used five times. -/
def twoSlots : BufferPool where
  poolSize := 2
  buffers := [{ Buffer.empty with pinCount := 1 }, { Buffer.empty with usageCount := 5 }]
  pageMap := ∅
  nextVictim := 0

theorem twoSlots_victim : twoSlots.findVictim.map Prod.snd = some 1 := by
  have hlen : twoSlots.buffers.length = twoSlots.poolSize := rfl
  have hunpinned : ∃ buf ∈ twoSlots.buffers, buf.pinCount = 0 :=
    ⟨_, List.mem_cons_of_mem _ List.mem_cons_self, rfl⟩
  obtain ⟨pool', victim, hfind, hlt, ⟨buf, hbuf, hpin⟩, -⟩ :=
    findVictim_unpinned hlen (by decide) hunpinned
  rw [hfind, Option.map_some, Option.some.injEq]
  change victim < 2 at hlt
  cases victim with
  | zero =>
      cases hbuf
      cases hpin
  | succ i =>
      obtain rfl : i = 0 := by omega
      rfl

end PostgressRs.BufferCache.ClockVictim
