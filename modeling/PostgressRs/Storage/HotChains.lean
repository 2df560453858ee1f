import Mathlib.Data.Finset.Card
import Mathlib.Data.Finset.Range
import Mathlib.Logic.Relation
import PostgressRs.Lib.Transitions
import PostgressRs.Storage.PageContents

/-!
HOT chains: when the tuple at the end of a chain of redirects is still found
after the page was stored and reloaded, compacted or pruned.
-/

namespace PostgressRs.Storage.HotChains

open PostgressRs.Lib.ByteBuffer
open PostgressRs.Lib.Transitions
open PostgressRs.Storage.PageContents
open PostgressRs.Storage.PageRoundTrip
open PostgressRs.Storage.SlottedPage

section Walks

/-- Slot `s` redirects to slot `c`. -/
def Redirects (lps : List LinePointer) (s c : UInt16) : Prop :=
  ∃ lp, lps[s.toNat]? = some lp ∧ lp.lpFlags = lpRedirect ∧ lp.lpOffset = c

def IsNormal (lps : List LinePointer) (s : UInt16) : Prop :=
  ∃ lp, lps[s.toNat]? = some lp ∧ lp.lpFlags = lpNormal

/-- `count` redirects lead from `s` to the normal slot `t`. -/
inductive Walk (lps : List LinePointer) : Nat → UInt16 → UInt16 → Prop
  | stop {t : UInt16} : IsNormal lps t → Walk lps 0 t t
  | step {count : Nat} {s c t : UInt16} :
      Redirects lps s c → Walk lps count c t → Walk lps (count + 1) s t

variable {lps : List LinePointer} {count count' : Nat} {s t t' : UInt16}

theorem Redirects.not_normal {c : UInt16} (h : Redirects lps s c) : ¬IsNormal lps s := by
  rintro ⟨lp, hlp, hnormal⟩
  obtain ⟨lp', hlp', hredirect, _⟩ := h
  rw [hlp] at hlp'
  cases hlp'
  rw [hredirect] at hnormal
  exact lpRedirect_ne_lpNormal hnormal

theorem Redirects.unique {c c' : UInt16} (h : Redirects lps s c) (h' : Redirects lps s c') :
    c = c' := by
  obtain ⟨lp, hlp, _, rfl⟩ := h
  obtain ⟨lp', hlp', _, rfl⟩ := h'
  rw [hlp] at hlp'
  cases hlp'
  rfl

theorem Walk.unique (h : Walk lps count s t) (h' : Walk lps count' s t') :
    count = count' ∧ t = t' := by
  induction h generalizing count' with
  | stop hnormal =>
      cases h' with
      | stop _ => exact ⟨rfl, rfl⟩
      | step hredirects _ => exact absurd hnormal hredirects.not_normal
  | step hredirects _ ih =>
      cases h' with
      | stop hnormal => exact absurd hnormal hredirects.not_normal
      | step hredirects' hrest =>
          rw [hredirects.unique hredirects'] at ih
          obtain ⟨hcount, hend⟩ := ih hrest
          exact ⟨congrArg (· + 1) hcount, hend⟩

theorem Walk.lt_length (h : Walk lps count s t) : s.toNat < lps.length := by
  cases h with
  | stop hnormal =>
      obtain ⟨lp, hlp, _⟩ := hnormal
      exact (List.getElem?_eq_some_iff.mp hlp).1
  | step hredirects _ =>
      obtain ⟨lp, hlp, _⟩ := hredirects
      exact (List.getElem?_eq_some_iff.mp hlp).1

/-- A walk visits no slot twice, so it is shorter than the page. -/
theorem Walk.count_lt (h : Walk lps count s t) : count < lps.length := by
  have hvisited : ∃ visited : List UInt16, visited.Nodup ∧ visited.length = count + 1 ∧
      ∀ v ∈ visited, ∃ j ≤ count, Walk lps j v t := by
    induction h with
    | @stop t hnormal =>
        refine ⟨[t], List.nodup_singleton _, rfl, ?_⟩
        intro v hv
        rw [List.mem_singleton.mp hv]
        exact ⟨0, Nat.le_refl _, Walk.stop hnormal⟩
    | @step count s c t hredirects hrest ih =>
        obtain ⟨visited, hnodup, hlen, hwalks⟩ := ih
        have hwhole := Walk.step hredirects hrest
        refine ⟨s :: visited, List.nodup_cons.mpr ⟨?_, hnodup⟩, by rw [List.length_cons, hlen], ?_⟩
        · intro hmem
          obtain ⟨j, hj, hwalk⟩ := hwalks s hmem
          have hcount := (hwalk.unique hwhole).1
          omega
        · intro v hv
          rcases List.mem_cons.mp hv with rfl | hv
          · exact ⟨count + 1, Nat.le_refl _, hwhole⟩
          · obtain ⟨j, hj, hwalk⟩ := hwalks v hv
            exact ⟨j, Nat.le_succ_of_le hj, hwalk⟩
  obtain ⟨visited, hnodup, hlen, hwalks⟩ := hvisited
  have hsub : (visited.map UInt16.toNat).toFinset ⊆ Finset.range lps.length := by
    intro n hn
    obtain ⟨v, hv, rfl⟩ := List.mem_map.mp (List.mem_toFinset.mp hn)
    obtain ⟨j, _, hwalk⟩ := hwalks v hv
    exact Finset.mem_range.mpr hwalk.lt_length
  have hcard := Finset.card_le_card hsub
  have hinj : Function.Injective UInt16.toNat := fun _ _ => UInt16.toNat_inj.mp
  rw [List.toFinset_card_of_nodup (hnodup.map hinj), List.length_map, hlen,
    Finset.card_range] at hcard
  exact hcard

theorem followFrom_eq_some {budget : Nat} :
    HeapPage.followFrom lps budget s = some t ↔ ∃ count ≤ budget, Walk lps count s t := by
  constructor
  · intro h
    induction budget generalizing s with
    | zero =>
        unfold HeapPage.followFrom at h
        split at h
        · cases h
        · rename_i lp hlp
          split at h
          · rename_i hnormal
            cases h
            exact ⟨0, Nat.le_refl _, Walk.stop ⟨lp, hlp, hnormal⟩⟩
          · split at h
            · cases h
            · cases h
    | succ budget ih =>
        unfold HeapPage.followFrom at h
        split at h
        · cases h
        · rename_i lp hlp
          split at h
          · rename_i hnormal
            cases h
            exact ⟨0, Nat.zero_le _, Walk.stop ⟨lp, hlp, hnormal⟩⟩
          · split at h
            · rename_i hredirect
              obtain ⟨count, hle, hwalk⟩ := ih h
              exact ⟨count + 1, Nat.succ_le_succ hle, Walk.step ⟨lp, hlp, hredirect, rfl⟩ hwalk⟩
            · cases h
  · rintro ⟨count, hle, hwalk⟩
    induction hwalk generalizing budget with
    | stop hnormal =>
        obtain ⟨lp, hlp, hflags⟩ := hnormal
        unfold HeapPage.followFrom
        simp only [hlp, if_pos hflags]
    | step hredirects _ ih =>
        obtain ⟨lp, hlp, hflags, rfl⟩ := hredirects
        cases budget with
        | zero => exact absurd hle (Nat.not_succ_le_zero _)
        | succ budget =>
            unfold HeapPage.followFrom
            have hne : lp.lpFlags ≠ lpNormal := by
              rw [hflags]
              exact lpRedirect_ne_lpNormal
            simp only [hlp, if_neg hne, if_pos hflags]
            exact ih (Nat.le_of_succ_le_succ hle)

theorem followChain_eq_some {page : HeapPage} :
    page.followChain s = some t ↔ ∃ count, Walk page.linePointers count s t := by
  rw [HeapPage.followChain, followFrom_eq_some]
  constructor
  · rintro ⟨count, _, hwalk⟩
    exact ⟨count, hwalk⟩
  · rintro ⟨count, hwalk⟩
    exact ⟨count, Nat.le_of_lt hwalk.count_lt, hwalk⟩

theorem IsNormal.getTuple {page : HeapPage} (hpage : WellFormed page)
    (h : IsNormal page.linePointers t) : ∃ tuple, page.getTuple t = some tuple := by
  obtain ⟨lp, hlp, hnormal⟩ := h
  have hlt : t.toNat < page.tuples.length := by
    rw [hpage.length_eq]
    exact (List.getElem?_eq_some_iff.mp hlp).1
  refine ⟨page.tuples[t.toNat], ?_⟩
  simp only [HeapPage.getTuple, hlp, if_pos hnormal, List.getElem?_eq_getElem hlt]

theorem isNormal_of_getTuple {page : HeapPage} {tuple : Bytes}
    (h : page.getTuple t = some tuple) : IsNormal page.linePointers t := by
  unfold HeapPage.getTuple at h
  split at h
  · rename_i lp hlp
    split at h
    · rename_i hnormal
      exact ⟨lp, hlp, hnormal⟩
    · cases h
  · cases h

theorem Walk.end_normal (h : Walk lps count s t) : IsNormal lps t := by
  induction h with
  | stop hnormal => exact hnormal
  | step _ _ ih => exact ih

end Walks

section Reload

variable {page : HeapPage} {s t : UInt16}

/-- The chain that starts at `s` leads to the tuple. -/
def Reaches (page : HeapPage) (s : UInt16) (tuple : Option Bytes) : Prop :=
  ∃ t, page.followChain s = some t ∧ page.getTuple t = tuple

theorem relocate_getElem? {lps : List LinePointer} {tuples : List Bytes} {stop slot : Nat}
    {lp : LinePointer} (h : (relocate lps tuples stop)[slot]? = some lp)
    (hredirect : lp.lpFlags ≠ lpNormal) : lp.lpOffset = 0 := by
  induction lps generalizing tuples stop slot with
  | nil => cases h
  | cons lp' lps ih =>
      cases tuples with
      | nil => cases h
      | cons tuple tuples =>
          by_cases hnormal : lp'.lpFlags = lpNormal
          · rw [relocate, if_pos hnormal] at h
            cases slot with
            | zero =>
                cases h
                exact absurd hnormal hredirect
            | succ slot => exact ih h
          · rw [relocate, if_neg hnormal] at h
            cases slot with
            | zero =>
                cases h
                rfl
            | succ slot => exact ih h

theorem isNormal_stored_iff (hpage : WellFormed page) :
    IsNormal (stored page).linePointers s ↔ IsNormal page.linePointers s := by
  have hflags := relocate_getElem?_flags page.linePointers page.tuples pageSize s.toNat
    hpage.length_eq
  constructor
  · rintro ⟨lp, hlp, hnormal⟩
    rw [show (relocate page.linePointers page.tuples pageSize)[s.toNat]? = some lp
        from hlp] at hflags
    obtain ⟨lp', hlp', heq⟩ := Option.map_eq_some_iff.mp hflags.symm
    exact ⟨lp', hlp', heq.trans hnormal⟩
  · rintro ⟨lp, hlp, hnormal⟩
    rw [hlp] at hflags
    obtain ⟨lp', hlp', heq⟩ := Option.map_eq_some_iff.mp hflags
    exact ⟨lp', hlp', heq.trans hnormal⟩

/-- In a reloaded page every redirect leads to slot 0. -/
theorem stored_redirects {c : UInt16}
    (h : Redirects (stored page).linePointers s c) : c = 0 := by
  obtain ⟨lp, hlp, hredirect, rfl⟩ := h
  exact relocate_getElem? hlp (by rw [hredirect]; exact lpRedirect_ne_lpNormal)

theorem redirects_stored (hpage : WellFormed page) {c : UInt16}
    (h : Redirects page.linePointers s c) : Redirects (stored page).linePointers s 0 := by
  obtain ⟨lp, hlp, hredirect, _⟩ := h
  have hflags := relocate_getElem?_flags page.linePointers page.tuples pageSize s.toNat
    hpage.length_eq
  rw [hlp] at hflags
  obtain ⟨lp', hlp', heq⟩ := Option.map_eq_some_iff.mp hflags
  have hredirect' := heq.trans hredirect
  refine ⟨lp', hlp', hredirect', relocate_getElem? hlp' ?_⟩
  rw [hredirect']
  exact lpRedirect_ne_lpNormal

/-- A chain of a reloaded page has at most one redirect. -/
theorem stored_walk {count : Nat}
    (h : Walk (stored page).linePointers count s t) : t = s ∨ t = 0 := by
  cases h with
  | stop _ => exact Or.inl rfl
  | step hredirects hrest =>
      rw [stored_redirects hredirects] at hrest
      cases hrest with
      | stop _ => exact Or.inr rfl
      | step hredirects' hrest' =>
          -- slot 0 redirects to itself
          have hself := hrest'
          rw [stored_redirects hredirects'] at hself hredirects'
          have hcount := (hself.unique (Walk.step hredirects' hself)).1
          omega

theorem reload_chain_iff (hpage : WellFormed page) (hchain : page.followChain s = some t) :
    Reaches (stored page) s (page.getTuple t) ↔
      IsNormal page.linePointers s ∨ page.getTuple 0 = page.getTuple t := by
  obtain ⟨count, hwalk⟩ := followChain_eq_some.mp hchain
  obtain ⟨tuple, htuple⟩ := hwalk.end_normal.getTuple hpage
  constructor
  · rintro ⟨t', hfollow, hget⟩
    obtain ⟨count', hwalk'⟩ := followChain_eq_some.mp hfollow
    rw [stored_getTuple hpage] at hget
    rcases stored_walk hwalk' with rfl | rfl
    · exact Or.inl (isNormal_of_getTuple (hget.trans htuple))
    · exact Or.inr hget
  · have hnormalCase : IsNormal page.linePointers s →
        Reaches (stored page) s (page.getTuple t) := by
      intro hnormal
      have hend := (hwalk.unique (Walk.stop hnormal)).2
      refine ⟨s, followChain_eq_some.mpr ⟨0, Walk.stop ?_⟩, ?_⟩
      · exact (isNormal_stored_iff hpage).mpr hnormal
      · rw [stored_getTuple hpage, hend]
    rintro (hnormal | hzero)
    · exact hnormalCase hnormal
    · cases hwalk with
      | stop hnormal => exact hnormalCase hnormal
      | step hredirects _ =>
          have hfirst : IsNormal (stored page).linePointers 0 :=
            (isNormal_stored_iff hpage).mpr (isNormal_of_getTuple (hzero.trans htuple))
          refine ⟨0, followChain_eq_some.mpr ⟨1, Walk.step ?_ (Walk.stop hfirst)⟩, ?_⟩
          · exact redirects_stored hpage hredirects
          · rw [stored_getTuple hpage, hzero]

end Reload

section Compaction

variable {lps : List LinePointer} {tuples : List Bytes} {page page' : HeapPage} {s t : UInt16}

/-- The slot that a slot becomes when the dead ones are dropped. -/
def newSlot (lps : List LinePointer) (slot : UInt16) : UInt16 :=
  UInt16.ofNat ((lps.take slot.toNat).filter fun lp => lp.lpFlags ≠ lpDead).length

def NoDeadBefore (lps : List LinePointer) (slot : UInt16) : Prop :=
  ∀ (i : Nat) (lp : LinePointer), i < slot.toNat → lps[i]? = some lp → lp.lpFlags ≠ lpDead

theorem newSlot_toNat (lps : List LinePointer) (slot : UInt16) :
    (newSlot lps slot).toNat =
      ((lps.take slot.toNat).filter fun lp => lp.lpFlags ≠ lpDead).length := by
  have hle := List.length_filter_le (fun lp => decide (lp.lpFlags ≠ lpDead))
    (lps.take slot.toNat)
  have htake := List.length_take_le slot.toNat lps
  have hlt := slot.toNat_lt
  rw [newSlot, UInt16.toNat_ofNat']
  exact Nat.mod_eq_of_lt (by omega)

theorem newSlot_eq_self (h : NoDeadBefore lps s) (hle : s.toNat ≤ lps.length) :
    newSlot lps s = s := by
  apply UInt16.toNat_inj.mp
  have hall : ∀ lp ∈ lps.take s.toNat, decide (lp.lpFlags ≠ lpDead) = true := by
    intro lp hlp
    obtain ⟨i, hi, rfl⟩ := List.mem_take_iff_getElem.mp hlp
    rw [decide_eq_true_eq]
    exact h i _ (by omega) (List.getElem?_eq_getElem (by omega))
  rw [newSlot_toNat, List.filter_eq_self.mpr hall, List.length_take]
  omega

theorem liveSlots_newSlot (hlen : tuples.length = lps.length) {slot : Nat} {lp : LinePointer}
    {tuple : Bytes} (hlp : lps[slot]? = some lp) (htuple : tuples[slot]? = some tuple)
    (hlive : lp.lpFlags ≠ lpDead) :
    (HeapPage.liveSlots lps tuples)[((lps.take slot).filter
      fun lp => lp.lpFlags ≠ lpDead).length]? = some (lp, tuple) := by
  induction lps generalizing tuples slot with
  | nil => cases hlp
  | cons lp' lps ih =>
      cases tuples with
      | nil => cases hlen
      | cons tuple' tuples =>
          cases slot with
          | zero =>
              cases hlp
              cases htuple
              simp [HeapPage.liveSlots, hlive]
          | succ slot =>
              have htail := ih (Nat.succ.inj hlen) hlp htuple
              by_cases hdead : lp'.lpFlags = lpDead
              · simpa [HeapPage.liveSlots, hdead] using htail
              · simpa [HeapPage.liveSlots, hdead] using htail

theorem linePointer_newSlot (hlen : tuples.length = lps.length) {lp : LinePointer}
    (hlp : lps[s.toNat]? = some lp) (hlive : lp.lpFlags ≠ lpDead) :
    ((HeapPage.liveSlots lps tuples).map Prod.fst)[(newSlot lps s).toNat]? = some lp := by
  have hlt : s.toNat < tuples.length := by
    rw [hlen]
    exact (List.getElem?_eq_some_iff.mp hlp).1
  rw [newSlot_toNat, List.getElem?_map,
    liveSlots_newSlot hlen hlp (List.getElem?_eq_getElem hlt) hlive, Option.map_some]

/-- Chains survive a compaction that moves none of the slots they lead through. -/
theorem Walk.liveSlots (hlen : tuples.length = lps.length) {count : Nat}
    (h : Walk lps count s t)
    (hchain : ∀ c, Relation.TransGen (Redirects lps) s c → NoDeadBefore lps c) :
    Walk ((HeapPage.liveSlots lps tuples).map Prod.fst) count (newSlot lps s) (newSlot lps t) := by
  induction h with
  | stop hnormal =>
      obtain ⟨lp, hlp, hflags⟩ := hnormal
      have hlive : lp.lpFlags ≠ lpDead := by
        rw [hflags]
        exact lpDead_ne_lpNormal.symm
      exact Walk.stop ⟨lp, linePointer_newSlot hlen hlp hlive, hflags⟩
  | @step count s c t hredirects hrest ih =>
      have hnext := ih fun c' hc' => hchain c' (Relation.TransGen.head hredirects hc')
      rw [newSlot_eq_self (hchain c (Relation.TransGen.single hredirects))
        (Nat.le_of_lt hrest.lt_length)] at hnext
      obtain ⟨lp, hlp, hflags, rfl⟩ := hredirects
      have hlive : lp.lpFlags ≠ lpDead := by
        rw [hflags]
        decide
      exact Walk.step ⟨lp, linePointer_newSlot hlen hlp hlive, hflags, rfl⟩ hnext

theorem compact_chain (hpage : WellFormed page) (hcompact : page.compact = some page')
    (hchain : page.followChain s = some t)
    (hkept : ∀ c, Relation.TransGen (Redirects page.linePointers) s c →
      NoDeadBefore page.linePointers c) :
    Reaches page' (newSlot page.linePointers s) (page.getTuple t) := by
  obtain ⟨count, hwalk⟩ := followChain_eq_some.mp hchain
  have hwalk' := hwalk.liveSlots hpage.length_eq hkept
  obtain ⟨lp, hlp, hnormal⟩ := hwalk.end_normal
  have hlive : lp.lpFlags ≠ lpDead := by
    rw [hnormal]
    exact lpDead_ne_lpNormal.symm
  have hlt : t.toNat < page.tuples.length := by
    rw [hpage.length_eq]
    exact (List.getElem?_eq_some_iff.mp hlp).1
  have htuple : page.tuples[t.toNat]? = some page.tuples[t.toNat] := List.getElem?_eq_getElem hlt
  have hslot := liveSlots_newSlot hpage.length_eq hlp htuple hlive
  obtain ⟨_, _, hpage'⟩ := Option.bind_eq_some_iff.mp hcompact
  cases hpage'
  refine ⟨newSlot page.linePointers t, followChain_eq_some.mpr ⟨count, hwalk'⟩, ?_⟩
  simp only [HeapPage.getTuple, newSlot_toNat, List.getElem?_map, hslot, Option.map_some, hlp,
    if_pos hnormal, htuple]

/-- `prune` marks some of the normal slots dead and, if there are any, compacts. -/
theorem prune_cases {cutoffXid : UInt32} {result : HeapPage.PruneResult}
    (h : page.prune cutoffXid = some (page', result)) :
    ∃ marked count, HeapPage.markPrunable cutoffXid page.linePointers page.tuples =
        some (marked, count) ∧
      (count = 0 ∧ page' = page ∨
        0 < count ∧ HeapPage.compact { page with
          header := { page.header with pdPruneXid := cutoffXid }
          linePointers := marked } = some page') := by
  obtain ⟨⟨marked, count⟩, hmark, h⟩ := Option.bind_eq_some_iff.mp h
  refine ⟨marked, count, hmark, ?_⟩
  simp only at h
  split at h
  · rename_i hcount
    obtain ⟨compacted, hcompact, h⟩ := Option.bind_eq_some_iff.mp h
    cases h
    exact Or.inr ⟨hcount, hcompact⟩
  · rename_i hcount
    cases h
    exact Or.inl ⟨Nat.eq_zero_of_not_pos hcount, rfl⟩

theorem prunable_normal {cutoffXid : UInt32} {lp : LinePointer} {tuple : Option Bytes}
    (h : HeapPage.prunable cutoffXid lp tuple = some true) : lp.lpFlags = lpNormal := by
  unfold HeapPage.prunable at h
  split at h
  · cases h
  · rename_i hnormal
    exact not_not.mp hnormal

theorem markPrunable_getElem? {cutoffXid : UInt32} {marked : List LinePointer} {count : Nat}
    (h : HeapPage.markPrunable cutoffXid lps tuples = some (marked, count)) (slot : Nat) :
    marked[slot]? = lps[slot]?.map fun lp =>
      if HeapPage.prunable cutoffXid lp tuples[slot]? = some true then
        { lp with lpFlags := lpDead }
      else lp := by
  induction lps generalizing tuples marked count slot with
  | nil =>
      cases h
      rfl
  | cons lp lps ih =>
      obtain ⟨prunes, hprunes, h⟩ := Option.bind_eq_some_iff.mp h
      obtain ⟨⟨rest, count'⟩, hrest, h⟩ := Option.bind_eq_some_iff.mp h
      have htail := ih hrest
      rw [List.head?_eq_getElem?] at hprunes
      cases prunes with
      | true =>
          cases h
          cases slot with
          | zero => simp [hprunes]
          | succ slot =>
              have hslot := htail slot
              rw [List.getElem?_tail] at hslot
              exact hslot
      | false =>
          cases h
          cases slot with
          | zero => simp [hprunes]
          | succ slot =>
              have hslot := htail slot
              rw [List.getElem?_tail] at hslot
              exact hslot

theorem markPrunable_retired {cutoffXid : UInt32} {marked : List LinePointer} {count : Nat}
    (h : HeapPage.markPrunable cutoffXid lps tuples = some (marked, count)) :
    Retired lps marked := by
  have hslots := markPrunable_getElem? h
  have hlen : lps.length = marked.length := by
    apply Nat.le_antisymm
    · by_contra hlt
      have hslot := hslots marked.length
      rw [List.getElem?_eq_none (Nat.le_refl _),
        List.getElem?_eq_getElem (Nat.lt_of_not_le hlt)] at hslot
      cases hslot
    · by_contra hlt
      have hslot := hslots lps.length
      rw [List.getElem?_eq_none (Nat.le_refl _),
        List.getElem?_eq_getElem (Nat.lt_of_not_le hlt)] at hslot
      cases hslot
  rw [Retired, List.forall₂_iff_get]
  refine ⟨hlen, ?_⟩
  intro i hi hi'
  have hslot := hslots i
  rw [List.getElem?_eq_getElem hi, List.getElem?_eq_getElem hi', Option.map_some] at hslot
  rw [List.get_eq_getElem, List.get_eq_getElem, Option.some.inj hslot]
  split
  · exact Or.inr rfl
  · exact Or.inl rfl

/-- `prune` takes the slot's tuple. -/
def Pruned (cutoffXid : UInt32) (page : HeapPage) (slot : Nat) : Prop :=
  ∃ lp, page.linePointers[slot]? = some lp ∧
    HeapPage.prunable cutoffXid lp page.tuples[slot]? = some true

theorem exists_pruned {cutoffXid : UInt32} {marked : List LinePointer} {count : Nat}
    (h : HeapPage.markPrunable cutoffXid page.linePointers page.tuples = some (marked, count))
    (hcount : 0 < count) : ∃ slot, Pruned cutoffXid page slot := by
  obtain ⟨header, lps, tuples⟩ := page
  simp only [Pruned] at h ⊢
  induction lps generalizing tuples marked count with
  | nil =>
      cases h
      exact absurd hcount (Nat.lt_irrefl _)
  | cons lp lps ih =>
      obtain ⟨prunes, hprunes, h⟩ := Option.bind_eq_some_iff.mp h
      obtain ⟨⟨rest, count'⟩, hrest, h⟩ := Option.bind_eq_some_iff.mp h
      rw [List.head?_eq_getElem?] at hprunes
      cases prunes with
      | true => exact ⟨0, lp, rfl, hprunes⟩
      | false =>
          cases h
          obtain ⟨slot, lp', hlp', hpruned⟩ := ih hcount tuples.tail hrest
          rw [List.getElem?_tail] at hpruned
          exact ⟨slot + 1, lp', hlp', hpruned⟩

/-- The slot that a slot becomes in a `prune`. -/
def prunedSlot (cutoffXid : UInt32) (page : HeapPage) (slot : UInt16) : UInt16 :=
  match HeapPage.markPrunable cutoffXid page.linePointers page.tuples with
  | some (marked, count) => if 0 < count then newSlot marked slot else slot
  | none => slot

theorem redirects_marked {cutoffXid : UInt32} {marked : List LinePointer} {count : Nat}
    (h : HeapPage.markPrunable cutoffXid lps tuples = some (marked, count)) :
    Redirects marked = Redirects lps := by
  funext s c
  rw [Redirects, Redirects, markPrunable_getElem? h s.toNat]
  apply propext
  constructor
  · rintro ⟨lp, hlp, hredirect, hoffset⟩
    obtain ⟨lp', hlp', rfl⟩ := Option.map_eq_some_iff.mp hlp
    split at hredirect
    · exact absurd hredirect (show lpDead ≠ lpRedirect by decide)
    · rename_i hkept
      rw [if_neg hkept] at hoffset
      exact ⟨lp', hlp', hredirect, hoffset⟩
  · rintro ⟨lp, hlp, hredirect, hoffset⟩
    have hkept : HeapPage.prunable cutoffXid lp tuples[s.toNat]? ≠ some true := by
      intro hpruned
      rw [prunable_normal hpruned] at hredirect
      exact absurd hredirect (by decide)
    exact ⟨lp, by rw [hlp, Option.map_some, if_neg hkept], hredirect, hoffset⟩

theorem Walk.marked {cutoffXid : UInt32} {marked : List LinePointer} {count count' : Nat}
    (h : HeapPage.markPrunable cutoffXid page.linePointers page.tuples = some (marked, count))
    (hwalk : Walk page.linePointers count' s t) (ht : ¬Pruned cutoffXid page t.toNat) :
    Walk marked count' s t := by
  induction hwalk with
  | stop hnormal =>
      obtain ⟨lp, hlp, hflags⟩ := hnormal
      refine Walk.stop ⟨lp, ?_, hflags⟩
      rw [markPrunable_getElem? h, hlp, Option.map_some,
        if_neg fun hpruned => ht ⟨lp, hlp, hpruned⟩]
  | step hredirects _ ih =>
      rw [← redirects_marked h] at hredirects
      exact Walk.step hredirects (ih ht)

theorem wellFormed_marked {marked : List LinePointer} {count : Nat} {cutoffXid : UInt32}
    (hpage : WellFormed page)
    (h : HeapPage.markPrunable cutoffXid page.linePointers page.tuples = some (marked, count))
    (pruneXid : UInt32) :
    WellFormed { page with
      header := { page.header with pdPruneXid := pruneXid }
      linePointers := marked } := by
  have hholds : Holds (fun _ => True) page := ⟨hpage, fun _ _ _ _ _ _ => trivial⟩
  obtain ⟨hlength, hnonempty, hlower, hspecial, hroom, hupper⟩ :=
    (holds_retired hholds (markPrunable_retired h)).wellFormed
  exact ⟨hlength, hnonempty, hlower, hspecial, hroom, hupper⟩

theorem prune_chain {cutoffXid : UInt32} {result : HeapPage.PruneResult}
    (hpage : WellFormed page) (hprune : page.prune cutoffXid = some (page', result))
    (hchain : page.followChain s = some t) (ht : ¬Pruned cutoffXid page t.toNat)
    (hkept : (∃ slot, Pruned cutoffXid page slot) →
      ∀ c, Relation.TransGen (Redirects page.linePointers) s c →
        NoDeadBefore page.linePointers c ∧ ∀ i < c.toNat, ¬Pruned cutoffXid page i) :
    Reaches page' (prunedSlot cutoffXid page s) (page.getTuple t) := by
  obtain ⟨marked, count, hmark, ⟨hcount, rfl⟩ | ⟨hcount, hcompact⟩⟩ := prune_cases hprune
  · have hslot : prunedSlot cutoffXid page' s = s := by
      rw [prunedSlot, hmark]
      exact if_neg (by omega)
    rw [hslot]
    exact ⟨t, hchain, rfl⟩
  · have hslot : prunedSlot cutoffXid page s = newSlot marked s := by
      rw [prunedSlot, hmark]
      exact if_pos hcount
    obtain ⟨walked, hwalk⟩ := followChain_eq_some.mp hchain
    obtain ⟨lp, hlp, hnormal⟩ := hwalk.end_normal
    have hlp' : marked[t.toNat]? = some lp := by
      rw [markPrunable_getElem? hmark, hlp, Option.map_some,
        if_neg fun hpruned => ht ⟨lp, hlp, hpruned⟩]
    have htuple : page.getTuple t = HeapPage.getTuple { page with
        header := { page.header with pdPruneXid := cutoffXid }
        linePointers := marked } t := by
      simp only [HeapPage.getTuple, hlp, hlp']
    rw [hslot, htuple]
    refine compact_chain (wellFormed_marked hpage hmark cutoffXid) hcompact
      (followChain_eq_some.mpr ⟨walked, hwalk.marked hmark ht⟩) ?_
    intro c hc
    rw [show Redirects marked = Redirects page.linePointers from redirects_marked hmark] at hc
    obtain ⟨hdead, hpruned⟩ := hkept (exists_pruned hmark hcount) c hc
    intro i lp' hi hlp'
    rw [markPrunable_getElem? hmark] at hlp'
    obtain ⟨lp₀, hlp₀, rfl⟩ := Option.map_eq_some_iff.mp hlp'
    rw [if_neg fun hp => hpruned i hi ⟨lp₀, hlp₀, hp⟩]
    exact hdead i lp₀ hi hlp₀

theorem wellFormed_prune {cutoffXid : UInt32} {result : HeapPage.PruneResult}
    (hpage : WellFormed page) (hprune : page.prune cutoffXid = some (page', result)) :
    WellFormed page' := by
  obtain ⟨marked, count, hmark, ⟨_, rfl⟩ | ⟨_, hcompact⟩⟩ := prune_cases hprune
  · exact hpage
  · exact wellFormed_compact (wellFormed_marked hpage hmark cutoffXid) hcompact

end Compaction

section Runs

/-- The calls that build a page. -/
inductive PageCall where
  | addTuple (tuple : Bytes)
  | hotUpdate (oldSlot : UInt16) (tuple : Bytes)
  | markDead (slot : Nat)
  | prune (cutoffXid : UInt32)
  | compact

/-- A call that does not panic. -/
def CallStep (page : HeapPage) (call : PageCall) (page' : HeapPage) : Prop :=
  match call with
  | .addTuple tuple => ∃ slot, page.addTuple tuple = some (page', slot)
  | .hotUpdate oldSlot tuple => ∃ slot, page.hotUpdate oldSlot tuple = some (page', slot)
  | .markDead slot => page' = page.markDead slot
  | .prune cutoffXid => ∃ result, page.prune cutoffXid = some (page', result)
  | .compact => page.compact = some page'

/-- The call puts no empty tuple on the page. -/
def PutsBytes : PageCall → Prop
  | .addTuple tuple | .hotUpdate _ tuple => tuple ≠ []
  | _ => True

theorem wellFormed_call {page page' : HeapPage} {call : PageCall} (hpage : WellFormed page)
    (hputs : PutsBytes call) (h : CallStep page call page') : WellFormed page' := by
  cases call with
  | addTuple tuple =>
      obtain ⟨slot, hadd⟩ := h
      exact wellFormed_addTuple hpage hputs hadd
  | hotUpdate oldSlot tuple =>
      obtain ⟨slot, hhot⟩ := h
      exact wellFormed_hotUpdate hpage hputs hhot
  | markDead slot =>
      obtain rfl : page' = page.markDead slot := h
      exact wellFormed_markDead hpage slot
  | prune cutoffXid =>
      obtain ⟨result, hprune⟩ := h
      exact wellFormed_prune hpage hprune
  | compact => exact wellFormed_compact hpage h

/-- Chains of a page built from non-empty tuples: after a reload a chain leads to
its tuple if and only if it has no redirect or slot 0 happens to hold the same
bytes; a compaction or a `prune` keeps it if no slot it leads through is behind a
dead or pruned one. -/
theorem hot_chain_intact {trace : List (Transition HeapPage PageCall)} {page : HeapPage}
    (hrun : Run CallStep HeapPage.new trace page) (hputs : ∀ tr ∈ trace, PutsBytes tr.label)
    {s t : UInt16} (hchain : page.followChain s = some t) :
    (∃ data page', page.serialize = some data ∧ HeapPage.deserialize data = some page' ∧
      (Reaches page' s (page.getTuple t) ↔
        IsNormal page.linePointers s ∨ page.getTuple 0 = page.getTuple t)) ∧
    (∃ page', page.compact = some page' ∧
      ((∀ c, Relation.TransGen (Redirects page.linePointers) s c →
          NoDeadBefore page.linePointers c) →
        Reaches page' (newSlot page.linePointers s) (page.getTuple t))) ∧
    ∀ cutoffXid page' result, page.prune cutoffXid = some (page', result) →
      ¬Pruned cutoffXid page t.toNat →
      ((∃ slot, Pruned cutoffXid page slot) →
        ∀ c, Relation.TransGen (Redirects page.linePointers) s c →
          NoDeadBefore page.linePointers c ∧ ∀ i < c.toNat, ¬Pruned cutoffXid page i) →
      Reaches page' (prunedSlot cutoffXid page s) (page.getTuple t) := by
  have hpage : WellFormed page := (Run.invariant WellFormed (fun _ call => PutsBytes call)
    (fun _ _ _ hs hg h => wellFormed_call hs hg h) hrun wellFormed_new hputs).1
  refine ⟨?_, ?_, ?_⟩
  · exact ⟨image page, stored page, serialize_eq_image hpage, deserialize_image hpage,
      reload_chain_iff hpage hchain⟩
  · obtain ⟨page', hcompact, _, _⟩ := compact_ok hpage
    exact ⟨page', hcompact, compact_chain hpage hcompact hchain⟩
  · intro cutoffXid page' result hprune ht hkept
    exact prune_chain hpage hprune hchain ht hkept

theorem hotUpdatedPage_run :
    Run CallStep HeapPage.new
      [⟨HeapPage.new, .addTuple [1, 2],
          ⟨{ PageHeader.new with pdLower := 30, pdUpper := 8190 }, [⟨8190, lpNormal⟩],
            [[1, 2]]⟩⟩,
        ⟨⟨{ PageHeader.new with pdLower := 30, pdUpper := 8190 }, [⟨8190, lpNormal⟩],
            [[1, 2]]⟩, .hotUpdate 0 [3, 4], hotUpdatedPage⟩]
      hotUpdatedPage := by
  refine Run.cons ⟨some 0, ?_⟩ (Run.cons ⟨some 1, ?_⟩ (Run.nil _))
  · decide
  · decide

theorem hot_chain_intact_compacted :
    ∃ page', hotUpdatedPage.compact = some page' ∧ Reaches page' 0 (some [3, 4]) := by
  have hchain : hotUpdatedPage.followChain 0 = some 1 := by decide
  obtain ⟨_, ⟨page', hcompact, hkept⟩, _⟩ :=
    hot_chain_intact hotUpdatedPage_run (by simp [PutsBytes]) hchain
  refine ⟨page', hcompact, hkept ?_⟩
  intro c _ i lp _ hlp
  have hlive : ∀ lp ∈ hotUpdatedPage.linePointers, lp.lpFlags ≠ lpDead := by decide
  exact hlive lp (List.mem_of_getElem? hlp)

/-- A reloaded page has lost the target of its redirect. -/
theorem reload_breaks_chain :
    ∃ trace data page', Run CallStep HeapPage.new trace hotUpdatedPage ∧
      hotUpdatedPage.followChain 0 = some 1 ∧ hotUpdatedPage.getTuple 1 = some [3, 4] ∧
      hotUpdatedPage.serialize = some data ∧ HeapPage.deserialize data = some page' ∧
      page'.followChain 0 = none := by
  have hpage := wellFormed_of_reachable hotUpdatedPage_reachable
  exact ⟨_, _, _, hotUpdatedPage_run, by decide, by decide, serialize_eq_image hpage,
    deserialize_image hpage, by decide⟩

end Runs

end PostgressRs.Storage.HotChains
