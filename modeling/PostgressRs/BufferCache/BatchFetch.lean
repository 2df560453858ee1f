import Mathlib.Data.List.Nodup
import PostgressRs.BufferCache.PinnedPool
import PostgressRs.Lib.Transitions

/-!
A new pool that is only fetched from: no page is ever unpinned, so each page
that is fetched for the first time takes the next slot, and slot 0 once all
slots are taken.
-/

namespace PostgressRs.BufferCache.BatchFetch

open PostgressRs.BufferCache.PagePool
open PostgressRs.BufferCache.PinnedPool
open PostgressRs.BufferCache.PoolInvariants
open PostgressRs.BufferCache.SharedCache
open PostgressRs.Lib.ByteBuffer
open PostgressRs.Lib.Procedure
open PostgressRs.Lib.Transitions
open PostgressRs.Storage.PageStore
open PostgressRs.Types

section Frames

/-- The pages in the order of their first fetch, and how often each slot was
fetched since its page was loaded. -/
structure Frames where
  loaded : List PageId
  fetches : Nat → Nat

namespace Frames

def empty : Frames := ⟨[], fun _ => 0⟩

/-- The slot of a page in a pool of `size` slots. -/
def slotFor (size : Nat) (loaded : List PageId) (p : PageId) : Nat :=
  if loaded.idxOf p < size then loaded.idxOf p else 0

/-- The page a slot was loaded with last. -/
def occupant (size : Nat) (loaded : List PageId) (slot : Nat) : PageId :=
  (if slot = 0 ∧ size < loaded.length then loaded.getLast? else loaded[slot]?).getD ⟨0⟩

def fetch (size : Nat) (frames : Frames) (p : PageId) : Frames :=
  if p ∈ frames.loaded then
    let slot := slotFor size frames.loaded p
    { frames with fetches := Function.update frames.fetches slot (frames.fetches slot + 1) }
  else
    let loaded := frames.loaded ++ [p]
    ⟨loaded, Function.update frames.fetches (slotFor size loaded p) 1⟩

def fetchAll (size : Nat) (frames : Frames) (ids : List PageId) : Frames :=
  ids.foldl (fetch size) frames

/-- The `u32` counters of the page's slot are not at their maximum. -/
def Countable (size : Nat) (frames : Frames) (p : PageId) : Prop :=
  p ∈ frames.loaded → frames.fetches (slotFor size frames.loaded p) + 1 < 2 ^ 32

def AllCountable (size : Nat) : Frames → List PageId → Prop
  | _, [] => True
  | frames, p :: ids => Countable size frames p ∧ AllCountable size (fetch size frames p) ids

end Frames

end Frames

section Slots

variable {size : Nat} {loaded : List PageId} {p q : PageId}

open Frames

theorem slotFor_lt (hsize : 0 < size) (loaded : List PageId) (p : PageId) :
    slotFor size loaded p < size := by
  unfold slotFor
  split <;> omega

theorem slotFor_append (hq : q ∈ loaded) :
    slotFor size (loaded ++ [p]) q = slotFor size loaded q := by
  unfold slotFor
  rw [List.idxOf_append_of_mem hq]

theorem slotFor_concat (hp : p ∉ loaded) :
    slotFor size (loaded ++ [p]) p = if loaded.length < size then loaded.length else 0 := by
  unfold slotFor
  rw [List.idxOf_append_of_notMem hp, List.idxOf_cons_self, Nat.add_zero]

theorem slotFor_lt_length (hp : p ∈ loaded) : slotFor size loaded p < loaded.length := by
  have hlt := List.idxOf_lt_length_of_mem hp
  unfold slotFor
  split <;> omega

/-- A page that is loaded into its slot takes it over, and no other. -/
theorem occupant_concat (hp : p ∉ loaded) {slot : Nat} (hslot : slot < size)
    (hlt : slot < (loaded ++ [p]).length) :
    occupant size (loaded ++ [p]) slot =
      if slot = slotFor size (loaded ++ [p]) p then p else occupant size loaded slot := by
  rw [slotFor_concat hp]
  unfold occupant
  rw [List.length_append, List.length_singleton] at hlt ⊢
  by_cases hroom : loaded.length < size
  · rw [if_pos hroom, if_neg (by omega)]
    by_cases hlast : slot = loaded.length
    · rw [if_pos hlast, hlast, List.getElem?_concat_length, Option.getD_some]
    · rw [if_neg hlast, if_neg (by omega), List.getElem?_append_left (by omega)]
  · rw [if_neg hroom]
    by_cases hzero : slot = 0
    · rw [if_pos ⟨hzero, by omega⟩, if_pos hzero, List.getLast?_concat, Option.getD_some]
    · rw [if_neg (by omega), if_neg hzero, if_neg (by omega),
        List.getElem?_append_left (by omega)]

end Slots

section Pool

variable {σ : Type} [StorageTrait σ]

/-- The pool holds for each slot the page it was loaded with last. -/
structure Represents (size : Nat) (contents : PageId → Bytes) (frames : Frames)
    (pool : BufferPool) : Prop where
  poolSize_eq : pool.poolSize = size
  length_eq : pool.buffers.length = size
  hand_lt : pool.nextVictim < size
  hand_eq : frames.loaded.length < size → pool.nextVictim = frames.loaded.length
  nodup : frames.loaded.Nodup
  mapped : ∀ p, pool.pageMap.lookup p =
    if p ∈ frames.loaded then some (Frames.slotFor size frames.loaded p) else none
  frame : ∀ i, i < size → i < frames.loaded.length →
    ∃ buf, pool.buffers[i]? = some buf ∧ buf.isDirty = false ∧
      buf.data = contents (Frames.occupant size frames.loaded i) ∧
      buf.usageCount.toNat = frames.fetches i ∧ buf.pinCount.toNat = frames.fetches i
  fetched : ∀ i, i < size → i < frames.loaded.length → 0 < frames.fetches i
  free : ∀ i, i < size → frames.loaded.length ≤ i → pool.buffers[i]? = some Buffer.empty

theorem represents_new {size : Nat} (hsize : 0 < size) (contents : PageId → Bytes) :
    Represents size contents Frames.empty (BufferPool.new size) := by
  refine ⟨rfl, List.length_replicate, hsize, fun _ => rfl, List.nodup_nil, ?_, ?_, ?_, ?_⟩
  · intro p
    simp [BufferPool.new, Frames.empty]
  · intro i _ hi
    simp [Frames.empty] at hi
  · intro i _ hi
    simp [Frames.empty] at hi
  · intro i hi _
    exact List.getElem?_replicate_of_lt hi

variable {size : Nat} {contents : PageId → Bytes} {frames : Frames} {s : PoolState σ} {p : PageId}

theorem toNat_incr {x y : UInt32} (h : checkedIncr x = some y) : y.toNat = x.toNat + 1 := by
  unfold checkedIncr at h
  split at h
  · cases h
  · rename_i hne
    cases h
    have hmax : x.toNat ≠ 2 ^ 32 - 1 := fun heq => hne (UInt32.toNat_inj.mp heq)
    have hlt := x.toNat_lt
    rw [UInt32.toNat_add]
    have hone : (1 : UInt32).toNat = 1 := rfl
    omega

theorem checkedIncr_of_lt {x : UInt32} (h : x.toNat + 1 < 2 ^ 32) :
    ∃ y, checkedIncr x = some y ∧ y.toNat = x.toNat + 1 := by
  cases hincr : checkedIncr x with
  | none =>
      rw [checkedIncr_eq_none.mp hincr] at h
      have hmax : (0xFFFFFFFF : UInt32).toNat = 2 ^ 32 - 1 := rfl
      omega
  | some y => exact ⟨y, rfl, toNat_incr hincr⟩

omit [StorageTrait σ] in
/-- The slot of a loaded page. -/
theorem Represents.slot (h : Represents size contents frames s.pool) (hsize : 0 < size)
    (hp : p ∈ frames.loaded) :
    ∃ buf, s.pool.pageMap.lookup p = some (Frames.slotFor size frames.loaded p) ∧
      s.pool.buffers[Frames.slotFor size frames.loaded p]? = some buf ∧ buf.isDirty = false ∧
      buf.data = contents
        (Frames.occupant size frames.loaded (Frames.slotFor size frames.loaded p)) ∧
      buf.usageCount.toNat = frames.fetches (Frames.slotFor size frames.loaded p) ∧
      buf.pinCount.toNat = frames.fetches (Frames.slotFor size frames.loaded p) := by
  have hlookup := h.mapped p
  rw [if_pos hp] at hlookup
  obtain ⟨buf, hbuf⟩ := h.frame _ (slotFor_lt hsize frames.loaded p) (slotFor_lt_length hp)
  exact ⟨buf, hlookup, hbuf⟩

/-- A fetch of a loaded page only counts. -/
theorem fetchPage_again (h : Represents size contents frames s.pool) (hsize : 0 < size)
    (hp : p ∈ frames.loaded) (hcount : Frames.Countable size frames p) :
    ∃ s', fetchPage p s = .ok (Frames.slotFor size frames.loaded p) s' ∧
      s'.storage = s.storage ∧ Represents size contents (frames.fetch size p) s'.pool := by
  obtain ⟨buf, hlookup, hbuf, hclean, hdata, husage, hpin⟩ := h.slot hsize hp
  have hroom := hcount hp
  set slot := Frames.slotFor size frames.loaded p with hslot
  obtain ⟨usageCount, hincr, husage'⟩ := checkedIncr_of_lt (x := buf.usageCount) (by omega)
  obtain ⟨pinCount, hincr', hpin'⟩ := checkedIncr_of_lt (x := buf.pinCount) (by omega)
  have hbuffer : buffer slot s = .ok buf s := by simp [buffer, hbuf]
  have hlt : slot < s.pool.buffers.length := (List.getElem?_eq_some_iff.mp hbuf).1
  have hslotLt : slot < frames.loaded.length := slotFor_lt_length hp
  set buf' : Buffer := { buf with usageCount := usageCount, pinCount := pinCount } with hbuf'
  refine ⟨⟨{ s.pool with buffers := s.pool.buffers.set slot buf' }, s.storage⟩, ?_, rfl, ?_⟩
  · rw [fetchPage_hit hlookup, pinSlot]
    simp [bind_apply, hbuffer, hincr, hincr', setBuffer, hbuf']
  have hfetch : frames.fetch size p =
      { frames with fetches := Function.update frames.fetches slot (frames.fetches slot + 1) } := by
    rw [Frames.fetch, if_pos hp]
  rw [hfetch]
  refine ⟨h.poolSize_eq, ?_, h.hand_lt, h.hand_eq, h.nodup, h.mapped, ?_, ?_, ?_⟩
  · rw [List.length_set]
    exact h.length_eq
  · intro i hi hlen
    dsimp only at hlen ⊢
    by_cases heq : i = slot
    · subst heq
      refine ⟨_, List.getElem?_set_self hlt, hclean, hdata, ?_, ?_⟩
      · rw [Function.update_self]
        exact husage'.trans (by rw [husage])
      · rw [Function.update_self]
        exact hpin'.trans (by rw [hpin])
    · obtain ⟨other, hother⟩ := h.frame i hi hlen
      rw [Function.update_of_ne heq]
      exact ⟨other, (List.getElem?_set_ne (Ne.symm heq)).trans hother.1, hother.2⟩
  · intro i hi hlen
    dsimp only at hlen ⊢
    by_cases heq : i = slot
    · rw [heq, Function.update_self]
      omega
    · rw [Function.update_of_ne heq]
      exact h.fetched i hi hlen
  · intro i hi hlen
    dsimp only at hlen ⊢
    have hne : slot ≠ i := by omega
    exact (List.getElem?_set_ne hne).trans (h.free i hi hlen)

/-- A counter that is at its maximum stops the fetch. -/
theorem fetchPage_saturated (h : Represents size contents frames s.pool) (hsize : 0 < size)
    (hcount : ¬Frames.Countable size frames p) : fetchPage p s = .panic := by
  obtain ⟨hp, hmax⟩ := Classical.not_imp.mp hcount
  obtain ⟨buf, hlookup, hbuf, -, -, husage, -⟩ := h.slot hsize hp
  have hbuffer : buffer (Frames.slotFor size frames.loaded p) s = .ok buf s := by
    simp [buffer, hbuf]
  have hlt := buf.usageCount.toNat_lt
  have hnone : checkedIncr buf.usageCount = none := by
    refine checkedIncr_eq_none.mpr (UInt32.toNat_inj.mp ?_)
    have hvalue : (0xFFFFFFFF : UInt32).toNat = 2 ^ 32 - 1 := rfl
    omega
  rw [fetchPage_hit hlookup, pinSlot]
  simp [bind_apply, hbuffer, hnone]

omit [StorageTrait σ] in
theorem clockSweep_allPinned {size rounds hand : Nat} {buffers : List Buffer}
    (hlen : buffers.length = size) (hpinned : ∀ buf ∈ buffers, buf.pinCount ≠ 0)
    (hhand : hand < size) :
    BufferPool.clockSweep size rounds buffers hand = some (buffers, none) := by
  induction rounds generalizing hand with
  | zero => rfl
  | succ rounds ih =>
      have hlt : hand < buffers.length := by omega
      have hbuf : buffers[hand]? = some buffers[hand] := List.getElem?_eq_getElem hlt
      have hpin := hpinned _ (List.getElem_mem hlt)
      rw [BufferPool.clockSweep]
      simp only [hbuf, Option.bind_eq_bind, Option.bind_some, if_neg hpin]
      exact ih (Nat.mod_lt _ (by omega))

omit [StorageTrait σ] in
/-- With all slots loaded, all of them are pinned. -/
theorem Represents.allPinned {pool : BufferPool} (h : Represents size contents frames pool)
    (hfull : size ≤ frames.loaded.length) : ∀ buf ∈ pool.buffers, buf.pinCount ≠ 0 := by
  intro buf hbuf hzero
  obtain ⟨i, hi⟩ := List.mem_iff_getElem?.mp hbuf
  have hlt : i < size := by
    rw [← h.length_eq]
    exact (List.getElem?_eq_some_iff.mp hi).1
  obtain ⟨buf', hbuf', -, -, -, hpin⟩ := h.frame i hlt (by omega)
  have hpos := h.fetched i hlt (by omega)
  rw [hi] at hbuf'
  cases hbuf'
  rw [hzero] at hpin
  have hvalue : (0 : UInt32).toNat = 0 := rfl
  omega

omit [StorageTrait σ] in
/-- The victim is the next slot, or slot 0 when there is none. -/
theorem Represents.victim {pool : BufferPool} (h : Represents size contents frames pool)
    (hsize : 0 < size) :
    ∃ hand, pool.findVictim = some ({ pool with nextVictim := hand },
        if frames.loaded.length < size then frames.loaded.length else 0) ∧ hand < size ∧
      (frames.loaded.length + 1 < size → hand = frames.loaded.length + 1) := by
  unfold BufferPool.findVictim
  rw [h.poolSize_eq]
  by_cases hroom : frames.loaded.length < size
  · obtain ⟨rounds, hrounds⟩ : ∃ rounds, size * 2 = rounds + 1 := ⟨size * 2 - 1, by omega⟩
    have hsweep : BufferPool.clockSweep size (size * 2) pool.buffers pool.nextVictim =
        some (pool.buffers, some frames.loaded.length) := by
      rw [hrounds, BufferPool.clockSweep, h.hand_eq hroom]
      simp only [h.free _ hroom (Nat.le_refl _), Option.bind_eq_bind, Option.bind_some]
      rfl
    rw [hsweep, if_pos hroom]
    refine ⟨(frames.loaded.length + 1) % size, rfl, Nat.mod_lt _ hsize, ?_⟩
    exact Nat.mod_eq_of_lt
  · have hpinned := h.allPinned (by omega)
    rw [clockSweep_allPinned h.length_eq hpinned h.hand_lt, if_neg hroom]
    have hnone : (pool.buffers.findIdx? fun buf => decide (buf.pinCount = 0)) = none := by
      rw [List.findIdx?_eq_none_iff]
      intro buf hbuf
      simpa using hpinned buf hbuf
    refine ⟨pool.nextVictim, ?_, h.hand_lt, by omega⟩
    simp only [Option.bind_eq_bind, Option.bind_some, hnone]
    rfl

/-- The first fetch of a page loads it. -/
theorem fetchPage_first (h : Represents size contents frames s.pool) (hsize : 0 < size)
    (hp : p ∉ frames.loaded) (hread : readPage s.storage p = .ok (contents p)) :
    ∃ s', fetchPage p s = .ok (Frames.slotFor size (frames.loaded ++ [p]) p) s' ∧
      s'.storage = s.storage ∧ Represents size contents (frames.fetch size p) s'.pool := by
  obtain ⟨hand, hvictim, hhand, hnext⟩ := h.victim hsize
  have hslot := @slotFor_concat size frames.loaded p hp
  rw [← hslot] at hvictim
  set slot := Frames.slotFor size (frames.loaded ++ [p]) p with hname
  have hslotLt : slot < size := slotFor_lt hsize _ p
  have hlookup : s.pool.pageMap.lookup p = none := by rw [h.mapped p, if_neg hp]
  obtain ⟨victim, hbuf, hclean⟩ : ∃ victim, s.pool.buffers[slot]? = some victim ∧
      victim.isDirty = false := by
    by_cases hold : slot < frames.loaded.length
    · obtain ⟨buf, hbuf, hclean, -⟩ := h.frame slot hslotLt hold
      exact ⟨buf, hbuf, hclean⟩
    · exact ⟨_, h.free slot hslotLt (by omega), rfl⟩
  have hlt : slot < s.pool.buffers.length := (List.getElem?_eq_some_iff.mp hbuf).1
  set buf' : Buffer := ⟨p, contents p, false, 1, 1⟩ with hbuf'
  refine ⟨⟨{ s.pool with
      nextVictim := hand
      buffers := s.pool.buffers.set slot buf'
      pageMap := s.pool.pageMap.insert p slot }, s.storage⟩, ?_, rfl, ?_⟩
  · simp only [fetchPage, bind_apply, lookupPage, read_apply, hlookup, takeVictim, hvictim,
      readStorage, hread, buffer, hbuf, hclean, Bool.false_eq_true, false_and, if_false,
      setBuffer, modifyMap, modify_apply, pure_apply]
    rfl
  have hfetch : frames.fetch size p =
      ⟨frames.loaded ++ [p], Function.update frames.fetches slot 1⟩ := by
    rw [Frames.fetch, if_neg hp]
  rw [hfetch]
  have hfree : frames.loaded.length < size → slot = frames.loaded.length := by
    intro hroom
    rw [hslot, if_pos hroom]
  refine ⟨h.poolSize_eq, ?_, hhand, ?_, ?_, ?_, ?_, ?_, ?_⟩
  · rw [List.length_set]
    exact h.length_eq
  · intro hroom
    rw [List.length_append, List.length_singleton] at hroom ⊢
    exact hnext hroom
  · exact List.nodup_append.mpr ⟨h.nodup, List.nodup_singleton p, by
      rintro q hq r hr rfl
      exact hp (List.mem_singleton.mp hr ▸ hq)⟩
  · intro q
    by_cases hqp : q = p
    · subst hqp
      rw [AList.lookup_insert, if_pos (by simp)]
    · rw [AList.lookup_insert_ne hqp, h.mapped q]
      by_cases hq : q ∈ frames.loaded
      · rw [if_pos hq, if_pos (List.mem_append_left _ hq), slotFor_append hq]
      · rw [if_neg hq, if_neg (by simp [hq, hqp])]
  · intro i hi hlen
    dsimp only at hlen ⊢
    rw [occupant_concat hp hi hlen, ← hname]
    by_cases heq : i = slot
    · subst heq
      rw [Function.update_self, if_pos rfl]
      exact ⟨buf', List.getElem?_set_self hlt, rfl, rfl, rfl, rfl⟩
    · rw [Function.update_of_ne heq, if_neg heq]
      have hold : i < frames.loaded.length := by
        rw [List.length_append, List.length_singleton] at hlen
        omega
      obtain ⟨other, hother⟩ := h.frame i hi hold
      exact ⟨other, (List.getElem?_set_ne (Ne.symm heq)).trans hother.1, hother.2⟩
  · intro i hi hlen
    dsimp only at hlen ⊢
    by_cases heq : i = slot
    · rw [heq, Function.update_self]
      omega
    · rw [Function.update_of_ne heq]
      rw [List.length_append, List.length_singleton] at hlen
      exact h.fetched i hi (by omega)
  · intro i hi hlen
    dsimp only at hlen ⊢
    rw [List.length_append, List.length_singleton] at hlen
    have hne : slot ≠ i := by
      have := hfree (by omega)
      omega
    exact (List.getElem?_set_ne hne).trans (h.free i hi (by omega))

theorem fetchPage_represents (h : Represents size contents frames s.pool) (hsize : 0 < size)
    (hread : readPage s.storage p = .ok (contents p)) (hcount : Frames.Countable size frames p) :
    ∃ s', fetchPage p s = .ok (Frames.slotFor size (frames.fetch size p).loaded p) s' ∧
      s'.storage = s.storage ∧ Represents size contents (frames.fetch size p) s'.pool := by
  by_cases hp : p ∈ frames.loaded
  · have hloaded : (frames.fetch size p).loaded = frames.loaded := by rw [Frames.fetch, if_pos hp]
    rw [hloaded]
    exact fetchPage_again h hsize hp hcount
  · have hloaded : (frames.fetch size p).loaded = frames.loaded ++ [p] := by
      rw [Frames.fetch, if_neg hp]
    rw [hloaded]
    exact fetchPage_first h hsize hp hread

end Pool

section Batches

variable {σ : Type} [StorageTrait σ] {size : Nat} {contents : PageId → Bytes} {frames : Frames}
  {s : PoolState σ} {p : PageId}

omit [StorageTrait σ] in
theorem mem_fetch (frames : Frames) (p : PageId) : p ∈ (frames.fetch size p).loaded := by
  unfold Frames.fetch
  split
  · assumption
  · exact List.mem_append_right _ List.mem_cons_self

theorem prefix_fetch (frames : Frames) (p : PageId) :
    frames.loaded <+: (frames.fetch size p).loaded := by
  unfold Frames.fetch
  split
  · exact List.prefix_rfl
  · exact List.prefix_append _ _

theorem prefix_fetchAll (frames : Frames) (ids : List PageId) :
    frames.loaded <+: (frames.fetchAll size ids).loaded := by
  induction ids generalizing frames with
  | nil => exact List.prefix_rfl
  | cons p ids ih => exact (prefix_fetch frames p).trans (ih _)

theorem slotFor_prefix {loaded loaded' : List PageId} (h : loaded <+: loaded') (hp : p ∈ loaded) :
    Frames.slotFor size loaded' p = Frames.slotFor size loaded p := by
  obtain ⟨rest, rfl⟩ := h
  unfold Frames.slotFor
  rw [List.idxOf_append_of_mem hp]

theorem mem_fetchAll {ids : List PageId} (frames : Frames) (hp : p ∈ ids) :
    p ∈ (frames.fetchAll size ids).loaded := by
  induction ids generalizing frames with
  | nil => cases hp
  | cons q ids ih =>
      rcases List.mem_cons.mp hp with rfl | hp
      · exact (prefix_fetchAll _ ids).subset (mem_fetch frames p)
      · exact ih _ hp

theorem fetchIndices_represents (hsize : 0 < size)
    (hread : ∀ p, readPage s.storage p = .ok (contents p)) {ids : List PageId}
    (h : Represents size contents frames s.pool) (hcount : Frames.AllCountable size frames ids) :
    ∃ s', fetchIndices ids s = .ok (ids.map fun p =>
        (p, Frames.slotFor size (frames.fetchAll size ids).loaded p)) s' ∧
      s'.storage = s.storage ∧ Represents size contents (frames.fetchAll size ids) s'.pool := by
  induction ids generalizing frames s with
  | nil => exact ⟨s, rfl, rfl, h⟩
  | cons p ids ih =>
      obtain ⟨hfirst, hrest⟩ := hcount
      obtain ⟨s₁, hfetch, hstorage, h₁⟩ := fetchPage_represents h hsize (hread p) hfirst
      obtain ⟨s₂, hindices, hstorage', h₂⟩ := ih (by rw [hstorage]; exact hread) h₁ hrest
      refine ⟨s₂, ?_, hstorage'.trans hstorage, h₂⟩
      have hslot : Frames.slotFor size ((frames.fetch size p).fetchAll size ids).loaded p =
          Frames.slotFor size (frames.fetch size p).loaded p :=
        slotFor_prefix (prefix_fetchAll _ ids) (mem_fetch frames p)
      rw [fetchIndices, bind_ok hfetch, bind_ok hindices, ← hslot]
      rfl

theorem fetchIndices_saturated (hsize : 0 < size)
    (hread : ∀ p, readPage s.storage p = .ok (contents p)) {ids : List PageId}
    (h : Represents size contents frames s.pool) (hcount : ¬Frames.AllCountable size frames ids) :
    fetchIndices ids s = .panic := by
  induction ids generalizing frames s with
  | nil => exact absurd trivial hcount
  | cons p ids ih =>
      rw [fetchIndices]
      by_cases hfirst : Frames.Countable size frames p
      · obtain ⟨s₁, hfetch, hstorage, h₁⟩ := fetchPage_represents h hsize (hread p) hfirst
        have hrest := ih (by rw [hstorage]; exact hread) h₁ fun hrest => hcount ⟨hfirst, hrest⟩
        rw [bind_ok hfetch, bind_panic hrest]
      · exact bind_panic (fetchPage_saturated h hsize hfirst)

/-- The bytes a batch returns for a page. -/
def held (size : Nat) (contents : PageId → Bytes) (loaded : List PageId) (p : PageId) : Bytes :=
  contents (Frames.occupant size loaded (Frames.slotFor size loaded p))

omit [StorageTrait σ] in
theorem readIndices_represents (h : Represents size contents frames s.pool) (hsize : 0 < size)
    {ids : List PageId} (hids : ∀ p ∈ ids, p ∈ frames.loaded) :
    readIndices (ids.map fun p => (p, Frames.slotFor size frames.loaded p)) s =
      .ok (ids.map fun p => (p, held size contents frames.loaded p)) s := by
  induction ids with
  | nil => rfl
  | cons p ids ih =>
      obtain ⟨buf, -, hbuf, -, hdata, -⟩ := h.slot hsize (hids p List.mem_cons_self)
      have hbuffer : buffer (Frames.slotFor size frames.loaded p) s = .ok buf s := by
        simp [buffer, hbuf]
      have hrest := ih fun q hq => hids q (List.mem_cons_of_mem _ hq)
      rw [List.map_cons, readIndices, bind_ok hbuffer, bind_ok hrest, hdata]
      rfl

theorem fetchPagesBatch_represents (hsize : 0 < size)
    (hread : ∀ p, readPage s.storage p = .ok (contents p)) {ids : List PageId}
    (h : Represents size contents frames s.pool) (hcount : Frames.AllCountable size frames ids) :
    ∃ s', fetchPagesBatch ids s = .ok (ids.map fun p =>
        (p, held size contents (frames.fetchAll size ids).loaded p)) s' ∧
      s'.storage = s.storage ∧ Represents size contents (frames.fetchAll size ids) s'.pool := by
  obtain ⟨s', hindices, hstorage, h'⟩ := fetchIndices_represents hsize hread h hcount
  refine ⟨s', ?_, hstorage, h'⟩
  rw [fetchPagesBatch, bind_ok hindices]
  exact readIndices_represents h' hsize fun p hp => mem_fetchAll frames hp

/-- The pages of a batch that share slot 0 have the contents of the page that was
loaded into it last. -/
def Undisturbed (size : Nat) (contents : PageId → Bytes) (loaded ids : List PageId) : Prop :=
  loaded.length ≤ size ∨
    ∀ p ∈ ids, Frames.slotFor size loaded p = 0 →
      ∀ last, loaded.getLast? = some last → contents p = contents last

theorem held_eq_iff {loaded : List PageId} (hp : p ∈ loaded) :
    held size contents loaded p = contents p ↔
      (loaded.length ≤ size ∨ (Frames.slotFor size loaded p = 0 →
        ∀ last, loaded.getLast? = some last → contents p = contents last)) := by
  have hlt := List.idxOf_lt_length_of_mem hp
  have hget : loaded[loaded.idxOf p]? = some p := List.getElem?_idxOf hp
  obtain ⟨last, hlast⟩ : ∃ last, loaded.getLast? = some last := by
    cases hlast : loaded.getLast? with
    | none =>
        rw [List.getLast?_eq_none_iff.mp hlast] at hp
        cases hp
    | some last => exact ⟨last, rfl⟩
  unfold held Frames.occupant
  by_cases hroom : loaded.length ≤ size
  · have hslot : Frames.slotFor size loaded p = loaded.idxOf p := by
      rw [Frames.slotFor, if_pos (by omega)]
    rw [if_neg (by omega), hslot, hget]
    simp [hroom]
  · by_cases hzero : Frames.slotFor size loaded p = 0
    · rw [if_pos ⟨hzero, by omega⟩, hlast, Option.getD_some]
      simp only [hroom, false_or, hzero, forall_const, Option.some.injEq, forall_eq']
      exact eq_comm
    · have hslot : Frames.slotFor size loaded p = loaded.idxOf p := by
        unfold Frames.slotFor at hzero ⊢
        split
        · rfl
        · rename_i hbeyond
          rw [if_neg hbeyond] at hzero
          exact absurd rfl hzero
      rw [if_neg fun hboth => hzero hboth.1, hslot, hget]
      rw [hslot] at hzero
      simp [hzero]

theorem map_held_eq_iff {loaded ids : List PageId} (hids : ∀ p ∈ ids, p ∈ loaded) :
    (ids.map fun p => (p, held size contents loaded p)) = ids.map (fun p => (p, contents p)) ↔
      Undisturbed size contents loaded ids := by
  rw [List.map_inj_left]
  have heach : ∀ p ∈ ids, ((p, held size contents loaded p) = (p, contents p) ↔
      (loaded.length ≤ size ∨ (Frames.slotFor size loaded p = 0 →
        ∀ last, loaded.getLast? = some last → contents p = contents last))) := by
    intro p hp
    rw [Prod.mk.injEq, ← held_eq_iff (hids p hp)]
    simp
  rw [forall₂_congr heach]
  unfold Undisturbed
  by_cases hroom : loaded.length ≤ size
  · simp [hroom]
  · simp only [hroom, false_or]

end Batches

section Histories

variable {σ : Type} [StorageTrait σ] {size : Nat} {contents : PageId → Bytes} {frames : Frames}

/-- The two fetches of the shared cache. -/
inductive FetchCall where
  | page (p : PageId)
  | batch (ids : List PageId)

def FetchCall.pages : FetchCall → List PageId
  | page p => [p]
  | batch ids => ids

def FetchCall.run : FetchCall → Proc (PoolState σ) (List (PageId × Bytes))
  | page p => do
      let data ← fetchPageData p
      pure [(p, data)]
  | batch ids => fetchPagesBatch ids

def FetchStep (s : PoolState σ) (call : FetchCall) (s' : PoolState σ) : Prop :=
  (call.run s).state? = some s'

/-- What the fetches of a run have loaded. -/
def fetched (size : Nat) (trace : List (Transition (PoolState σ) FetchCall)) : Frames :=
  Frames.empty.fetchAll size (trace.flatMap fun tr => tr.label.pages)

theorem fetchStep_represents (hsize : 0 < size) {s s' : PoolState σ} {call : FetchCall}
    (hread : ∀ p, readPage s.storage p = .ok (contents p))
    (h : Represents size contents frames s.pool) (hstep : FetchStep s call s') :
    s'.storage = s.storage ∧
      Represents size contents (frames.fetchAll size call.pages) s'.pool := by
  unfold FetchStep at hstep
  cases call with
  | page p =>
      simp only [FetchCall.run, fetchPageData, bind_apply] at hstep
      by_cases hcount : Frames.Countable size frames p
      · obtain ⟨s₁, hfetch, hstorage, h₁⟩ := fetchPage_represents h hsize (hread p) hcount
        obtain ⟨buf, -, hbuf, -⟩ := h₁.slot hsize (mem_fetch frames p)
        simp only [hfetch, buffer, hbuf] at hstep
        cases hstep
        exact ⟨hstorage, h₁⟩
      · rw [fetchPage_saturated h hsize hcount] at hstep
        cases hstep
  | batch ids =>
      simp only [FetchCall.run] at hstep
      by_cases hcount : Frames.AllCountable size frames ids
      · obtain ⟨s₁, hbatch, hstorage, h₁⟩ := fetchPagesBatch_represents hsize hread h hcount
        rw [hbatch] at hstep
        cases hstep
        exact ⟨hstorage, h₁⟩
      · rw [fetchPagesBatch, bind_panic (fetchIndices_saturated hsize hread h hcount)] at hstep
        cases hstep

theorem run_represents (hsize : 0 < size) {storage : σ}
    (hread : ∀ p, readPage storage p = .ok (contents p))
    {trace : List (Transition (PoolState σ) FetchCall)} {s : PoolState σ}
    (hrun : Run FetchStep ⟨BufferPool.new size, storage⟩ trace s) :
    s.storage = storage ∧ Represents size contents (fetched size trace) s.pool := by
  refine Run.invariant_history
    (fun past s => s.storage = storage ∧ Represents size contents (fetched size past) s.pool)
    (fun _ _ => True) ?_ hrun [] ⟨rfl, represents_new hsize contents⟩ fun _ _ => trivial
  rintro past s call s' ⟨hstorage, h⟩ _ hstep
  obtain ⟨hstorage', h'⟩ := fetchStep_represents hsize (by rw [hstorage]; exact hread) h hstep
  refine ⟨hstorage'.trans hstorage, ?_⟩
  have hfetched : fetched size (past ++ [⟨s, call, s'⟩]) =
      (fetched size past).fetchAll size call.pages := by
    unfold fetched Frames.fetchAll
    rw [List.flatMap_append, List.foldl_append]
    simp
  rw [hfetched]
  exact h'

end Histories

section Contents

variable {σ : Type} [StorageTrait σ]

/-- A batch returns the contents of its pages exactly if no counter overflows and
no page has lost its slot to a page with other contents. -/
theorem fetchPagesBatch_contents_iff {storage : σ} {contents : PageId → Bytes}
    (hread : ∀ p, readPage storage p = .ok (contents p))
    {trace : List (Transition (PoolState σ) FetchCall)} {s : PoolState σ}
    (hrun : Run FetchStep (SharedBufferCache.new storage).disk trace s) (ids : List PageId) :
    (∃ s', fetchPagesBatch ids s = .ok (ids.map fun p => (p, contents p)) s') ↔
      Frames.AllCountable 1024 (fetched 1024 trace) ids ∧
        Undisturbed 1024 contents ((fetched 1024 trace).fetchAll 1024 ids).loaded ids := by
  have hsize : 0 < 1024 := by omega
  obtain ⟨rfl, h⟩ := run_represents hsize hread hrun
  by_cases hcount : Frames.AllCountable 1024 (fetched 1024 trace) ids
  · obtain ⟨s', hbatch, -, -⟩ := fetchPagesBatch_represents hsize hread h hcount
    rw [← map_held_eq_iff fun p hp => mem_fetchAll _ hp]
    constructor
    · rintro ⟨s₁, heq⟩
      rw [hbatch] at heq
      obtain ⟨hvalues, -⟩ := Outcome.ok.inj heq
      exact ⟨hcount, hvalues⟩
    · rintro ⟨-, hvalues⟩
      exact ⟨s', by rw [hbatch, hvalues]⟩
  · have hpanic := bind_panic (f := readIndices) (fetchIndices_saturated hsize hread h hcount)
    constructor
    · rintro ⟨s', hbatch⟩
      rw [fetchPagesBatch, hpanic] at hbatch
      cases hbatch
    · rintro ⟨hcountable, -⟩
      exact absurd hcountable hcount

theorem fetchPagesBatch_contents_iff_two :
    ∃ s', fetchPagesBatch [⟨1⟩, ⟨2⟩] (SharedBufferCache.new EphemeralStorage.new).disk =
      .ok [(⟨1⟩, zeroPage), (⟨2⟩, zeroPage)] s' := by
  refine (fetchPagesBatch_contents_iff (fun p => EphemeralStorage.readPage_eq _ p) (Run.nil _)
    [⟨1⟩, ⟨2⟩]).mpr ⟨⟨?_, ?_, trivial⟩, Or.inl (by decide)⟩
  · intro hp
    revert hp
    decide
  · intro hp
    revert hp
    decide

end Contents

section Overflow

theorem fetchAll_distinct {size : Nat} {frames : Frames} {ids : List PageId}
    (h : (frames.loaded ++ ids).Nodup) :
    (frames.fetchAll size ids).loaded = frames.loaded ++ ids ∧
      Frames.AllCountable size frames ids := by
  induction ids generalizing frames with
  | nil => exact ⟨(List.append_nil _).symm, trivial⟩
  | cons p ids ih =>
      have hp : p ∉ frames.loaded := by
        intro hmem
        exact (List.nodup_append.mp h).2.2 p hmem p List.mem_cons_self rfl
      have hloaded : (frames.fetch size p).loaded = frames.loaded ++ [p] := by
        rw [Frames.fetch, if_neg hp]
      have hrest : ((frames.fetch size p).loaded ++ ids).Nodup := by
        rw [hloaded, List.append_assoc]
        exact h
      obtain ⟨hall, hcount⟩ := ih hrest
      refine ⟨?_, fun hmem => absurd hmem hp, hcount⟩
      rw [hloaded, List.append_assoc] at hall
      exact hall

/-- Page numbers `1..=count`. -/
def firstPages (count : Nat) : List PageId :=
  (List.range count).map fun i => ⟨UInt32.ofNat (i + 1)⟩

theorem firstPages_nodup {count : Nat} (h : count < 2 ^ 32 - 1) : (firstPages count).Nodup := by
  refine List.Nodup.map_on ?_ List.nodup_range
  intro i hi j hj heq
  rw [List.mem_range] at hi hj
  have hval : (UInt32.ofNat (i + 1)).toNat = (UInt32.ofNat (j + 1)).toNat :=
    congrArg (fun p : PageId => p.val.toNat) heq
  rw [UInt32.toNat_ofNat', UInt32.toNat_ofNat', Nat.mod_eq_of_lt (by omega),
    Nat.mod_eq_of_lt (by omega)] at hval
  omega

theorem firstPages_ends (count : Nat) :
    (firstPages (count + 1)).length = count + 1 ∧ ⟨1⟩ ∈ firstPages (count + 1) ∧
      (firstPages (count + 1)).idxOf ⟨1⟩ = 0 ∧
      (firstPages (count + 1)).getLast? = some ⟨UInt32.ofNat (count + 1)⟩ := by
  have hcons : firstPages (count + 1) = ⟨1⟩ :: ((List.range count).map Nat.succ).map
      fun i => ⟨UInt32.ofNat (i + 1)⟩ := by
    rw [firstPages, List.range_succ_eq_map, List.map_cons]
    rfl
  refine ⟨by simp [firstPages], ?_, ?_, ?_⟩
  · rw [hcons]
    exact List.mem_cons_self
  · rw [hcons, List.idxOf_cons_self]
  · rw [firstPages, List.range_succ, List.map_append, List.map_singleton, List.getLast?_concat]

/-- Page 1 differs from all the others. -/
def markedStorage : EphemeralStorage :=
  (writePage EphemeralStorage.new ⟨1⟩ (List.replicate 8192 1)).2

def markedContents (p : PageId) : Bytes := if p = ⟨1⟩ then List.replicate 8192 1 else zeroPage

theorem readPage_marked (p : PageId) : readPage markedStorage p = .ok (markedContents p) := by
  unfold markedStorage markedContents
  split
  · rename_i hp
    rw [hp]
    exact LawfulStorage.read_write_self _ _ _
  · rename_i hp
    rw [LawfulStorage.read_write_of_ne _ _ _ _ hp]
    exact EphemeralStorage.readPage_eq _ _

/-- A batch of 1025 pages: the last one takes the slot of the first. -/
theorem fetchPagesBatch_overflow :
    ¬∃ s', fetchPagesBatch (firstPages 1025) (SharedBufferCache.new markedStorage).disk =
      .ok ((firstPages 1025).map fun p => (p, markedContents p)) s' := by
  rintro ⟨s', hbatch⟩
  have hsize : 0 < 1024 := by omega
  have hnodup : (firstPages 1025).Nodup := firstPages_nodup (by omega)
  obtain ⟨hlen, hmem, hindex, hlast⟩ := firstPages_ends 1024
  generalize firstPages (1024 + 1) = ids at hbatch hnodup hlen hmem hindex hlast
  obtain ⟨hloaded, hcount⟩ := @fetchAll_distinct 1024 Frames.empty ids hnodup
  have hrep : Represents 1024 markedContents Frames.empty
      (SharedBufferCache.new markedStorage).disk.pool := represents_new hsize markedContents
  obtain ⟨s₁, heq, -⟩ := fetchPagesBatch_represents hsize readPage_marked hrep hcount
  have hall : ∀ p ∈ ids, p ∈ ids := fun _ hp => hp
  have hids : (Frames.empty.fetchAll 1024 ids).loaded = ids := hloaded
  rw [heq, hids] at hbatch
  obtain ⟨hvalues, -⟩ := Outcome.ok.inj hbatch
  rcases (map_held_eq_iff hall).mp hvalues with hroom | hsame
  · omega
  · have hslot : Frames.slotFor 1024 ids ⟨1⟩ = 0 := by
      rw [Frames.slotFor, hindex, if_pos hsize]
    have hpages := hsame ⟨1⟩ hmem hslot _ hlast
    have hother : (⟨UInt32.ofNat (1024 + 1)⟩ : PageId) ≠ ⟨1⟩ := by decide
    unfold markedContents zeroPage at hpages
    rw [if_pos rfl, if_neg hother, List.replicate_inj] at hpages
    rcases hpages.2 with hzero | hone
    · omega
    · exact absurd hone (by decide)

end Overflow

end PostgressRs.BufferCache.BatchFetch
