import PostgressRs.Btree.TreeSteps

/-!
What a search finds after a sequence of insertions.
-/

namespace PostgressRs.Btree.SearchComplete

open PostgressRs.Btree.IndexPage
open PostgressRs.Btree.PageCodec
open PostgressRs.Btree.TreeAccess
open PostgressRs.Btree.TreeShape
open PostgressRs.Btree.TreeSteps
open PostgressRs.Lib.ByteBuffer
open PostgressRs.Lib.Procedure
open PostgressRs.Storage.PageStore
open PostgressRs.Types

section Lossless

variable {σ : Type} [StorageTrait σ]

/-- The leaf an insertion descends to. -/
def leafFor (storage : σ) (key : Bytes) : Nat → PageId → Option BTreePage
  | 0, _ => none
  | fuel + 1, pageId =>
      match readPage storage pageId with
      | .error _ => none
      | .ok data => do
          let page ← deserializePage pageId data
          if page.pageType = .leaf ∨ page.keys = [] then some page
          else leafFor storage key fuel (findChildPageId page key)

/-- The leaf an insertion descends to has room, or it is the root and the last
key of its lower half differs from the first key of its upper half. -/
def Lossless (fuel : Nat) (storage : σ) (rootPage : PageId) (tuple : IndexTuple) : Prop :=
  ∃ leaf, leafFor storage tuple.key fuel rootPage = some leaf ∧
    (leaf.isFull 8192 = false ∨
      leaf.pageId = rootPage ∧
        ∀ a b, leaf.keys[leaf.keys.length / 2 - 1]? = some a →
          leaf.keys[leaf.keys.length / 2]? = some b → a.key ≠ b.key)

/-- Every insertion of a sequence is lossless when its turn comes. -/
def EachLossless (fuel : Nat) : List IndexTuple → PageId → IndexStore σ → Prop
  | [], _, _ => True
  | tuple :: tuples, rootPage, s =>
      Lossless fuel s.storage rootPage tuple ∧
        ∀ rootPage' s', btreeInsertMultipage fuel rootPage tuple 8192 s = .ok rootPage' s' →
          EachLossless fuel tuples rootPage' s'

variable {s : IndexStore σ} {rootPage : PageId} {shape : Shape}

theorem leafFor_leaf {storage : σ} {pageId : PageId} {entries : List IndexTuple}
    (h : LeafAt storage pageId entries) (fuel : Nat) (key : Bytes) :
    ∃ left right, leafFor storage key (fuel + 1) pageId =
      some ⟨.leaf, pageId, 0, entries, left, right⟩ := by
  obtain ⟨left, right, data, hread, hpage, -⟩ := h
  refine ⟨left, right, ?_⟩
  rw [leafFor, hread]
  simp [hpage]

theorem lossless_iff (h : Represents s rootPage shape) (fuel : Nat) (tuple : IndexTuple) :
    Lossless (fuel + 2) s.storage rootPage tuple ↔ shape.Roomy tuple := by
  cases shape with
  | single entries =>
      have hentries : LeafEntries entries := h.wellFormed
      have hcount := hentries.count
      obtain ⟨left, right, hleaf⟩ := leafFor_leaf h.stored (fuel + 1) tuple.key
      simp only [Lossless, hleaf, Option.some.injEq, exists_eq_left', BTreePage.isFull,
        decide_eq_false_iff_not, not_le, true_and, Shape.Roomy]
      rcases Nat.lt_or_eq_of_le hcount with hroom | hfull
      · simp [hroom]
      · simp [hfull]
  | fork separator left lefts right rights =>
      obtain ⟨⟨level, leftSibling, rightSibling, data, hread, hpage, -⟩, hleft, hright⟩ := h.stored
      have hdescend : leafFor s.storage tuple.key (fuel + 2) rootPage =
          leafFor s.storage tuple.key (fuel + 1)
            (if separator ≤ tuple.key then right else left) := by
        rw [leafFor, hread, ← lastChild_rootEntries separator left right tuple.key]
        simp only [hpage, Option.bind_eq_bind, Option.bind_some]
        rw [if_neg (by simp [rootEntries])]
        rfl
      have hdistinct := h.distinct
      simp only [pagesOf, List.cons_append, List.nodup_cons, List.mem_cons, not_or] at hdistinct
      obtain ⟨⟨hrootLeft, hrootRight, -⟩, -⟩ := hdistinct
      simp only [Lossless, hdescend, Shape.Roomy, Shape.leafFor]
      by_cases hkey : separator ≤ tuple.key
      · obtain ⟨leftSib, rightSib, hleaf⟩ := leafFor_leaf hright fuel tuple.key
        simp [hkey, hleaf, BTreePage.isFull, Ne.symm hrootRight]
      · obtain ⟨leftSib, rightSib, hleaf⟩ := leafFor_leaf hleft fuel tuple.key
        simp [hkey, hleaf, BTreePage.isFull, Ne.symm hrootLeft]

end Lossless

section Runs

variable {σ : Type} [StorageTrait σ] [LawfulStorage σ]

/-- A sequence of insertions: what can be found afterwards is all that was
inserted if every insertion was lossless, and less otherwise. -/
theorem insertAll_spec {s : IndexStore σ} {rootPage : PageId} {shape : Shape}
    (h : Represents s rootPage shape) {tuples : List IndexTuple}
    (htuples : ∀ tuple ∈ tuples, Indexable tuple) (fuel : Nat) :
    (insertAll (fuel + 2) 8192 tuples rootPage s = .panic ∧
        s.pageIds.length < 2 * tuples.length) ∨
      ∃ rootPage' s' shape', insertAll (fuel + 2) 8192 tuples rootPage s = .ok rootPage' s' ∧
        Represents s' rootPage' shape' ∧
        shape'.searchable.length ≤ shape.searchable.length + tuples.length ∧
        (EachLossless (fuel + 2) tuples rootPage s →
          shape'.searchable.Perm (tuples.map unowned ++ shape.searchable)) ∧
        (¬EachLossless (fuel + 2) tuples rootPage s →
          shape'.searchable.length < shape.searchable.length + tuples.length) := by
  induction tuples generalizing s rootPage shape with
  | nil =>
      exact Or.inr ⟨rootPage, s, shape, rfl, h, le_rfl, fun _ => List.Perm.refl _,
        fun hnot => absurd trivial hnot⟩
  | cons tuple tuples ih =>
      have htuple := htuples tuple List.mem_cons_self
      rcases insert_step h htuple fuel with ⟨hpanic, hids⟩ |
        ⟨rootPage₁, s₁, shape₁, hok, hstep, hshape₁, hids⟩
      · refine Or.inl ⟨bind_panic hpanic, ?_⟩
        rw [List.length_cons]
        omega
      · have heach : EachLossless (fuel + 2) (tuple :: tuples) rootPage s ↔
            shape.Roomy tuple ∧ EachLossless (fuel + 2) tuples rootPage₁ s₁ := by
          rw [EachLossless, lossless_iff h]
          constructor
          · rintro ⟨hroomy, hrest⟩
            exact ⟨hroomy, hrest rootPage₁ s₁ hok⟩
          · rintro ⟨hroomy, hrest⟩
            refine ⟨hroomy, fun rootPage' s' hok' => ?_⟩
            rw [hok] at hok'
            cases hok'
            exact hrest
        have hone := hstep.searchable_length_le h.wellFormed
        rw [List.length_cons]
        rcases ih hshape₁ (fun other hother => htuples other (List.mem_cons_of_mem _ hother)) with
          ⟨hpanic, hfew⟩ | ⟨rootPage', s', shape', hrun, hshape', hle, hperm, hlost⟩
        · refine Or.inl ⟨?_, by omega⟩
          rw [insertAll, bind_ok hok]
          exact hpanic
        · refine Or.inr ⟨rootPage', s', shape', ?_, hshape', by omega, ?_, ?_⟩
          · rw [insertAll, bind_ok hok]
            exact hrun
          · rw [heach]
            rintro ⟨hroomy, hrest⟩
            have hfirst := hstep.searchable_perm h.wellFormed hroomy
            exact ((hperm hrest).trans (hfirst.append_left _)).trans List.perm_middle
          · rw [heach, not_and_or]
            rintro (hcramped | hrest)
            · have hloses := hstep.searchable_loses h.wellFormed hcramped
              omega
            · have hless := hlost hrest
              omega

omit [LawfulStorage σ] in
/-- An unwritten root page is an empty index. -/
theorem represents_empty {storage : σ} {rootPage : PageId} {ids : List PageId}
    (hzero : readPage storage rootPage = .ok zeroPage) (hfresh : (rootPage :: ids).Nodup) :
    Represents ⟨storage, ids⟩ rootPage (.single []) where
  stored := ⟨none, none, pageAt_zero hzero⟩
  wellFormed := ⟨List.Pairwise.nil, by simp, by simp, by simp⟩
  distinct := hfresh

/-- A search for any key finds the heap pointers that were inserted under it. -/
def SearchExact (fuel : Nat) (s : IndexStore σ) (rootPage : PageId) (tuples : List IndexTuple) :
    Prop :=
  ∀ key, ∃ hits, btreeSearch fuel rootPage key s = .ok hits s ∧
    (hits.map IndexTuple.heapPointer).Perm
      ((tuples.filter fun tuple => tuple.key = key).map IndexTuple.heapPointer)

theorem map_unowned_filter (tuples : List IndexTuple) (key : Bytes) :
    ((tuples.map unowned).filter fun tuple => tuple.key = key).map IndexTuple.heapPointer =
      (tuples.filter fun tuple => tuple.key = key).map IndexTuple.heapPointer := by
  rw [List.filter_map, List.map_map]
  rfl

omit [LawfulStorage σ] in
theorem searchExact_of_perm {s : IndexStore σ} {rootPage : PageId} {shape : Shape}
    (h : Represents s rootPage shape) (fuel : Nat) {tuples : List IndexTuple}
    (hperm : shape.searchable.Perm (tuples.map unowned)) :
    SearchExact (fuel + 2) s rootPage tuples := by
  intro key
  refine ⟨_, search_ok h fuel key, ?_⟩
  rw [← map_unowned_filter tuples]
  exact (hperm.filter _).map _

omit [LawfulStorage σ] in
/-- Exact searches under every key account for every tuple. -/
theorem SearchExact.length_eq {s : IndexStore σ} {rootPage : PageId} {shape : Shape}
    (h : Represents s rootPage shape) {fuel : Nat} {tuples : List IndexTuple}
    (hexact : SearchExact (fuel + 2) s rootPage tuples) :
    shape.searchable.length = tuples.length := by
  apply length_eq_of_keys IndexTuple.key IndexTuple.key
  intro key
  obtain ⟨hits, hsearch, hperm⟩ := hexact key
  rw [search_ok h] at hsearch
  cases hsearch
  simpa using hperm.length_eq

theorem search_exact_iff_eachLossless (fuel : Nat) (storage : σ) (rootPage : PageId)
    (ids : List PageId) (tuples : List IndexTuple)
    (hzero : readPage storage rootPage = .ok zeroPage) (hfresh : (rootPage :: ids).Nodup)
    (htuples : ∀ tuple ∈ tuples, Indexable tuple) :
    (insertAll (fuel + 2) 8192 tuples rootPage ⟨storage, ids⟩ = .panic ∧
        ids.length < 2 * tuples.length) ∨
      ∃ rootPage' s',
        insertAll (fuel + 2) 8192 tuples rootPage ⟨storage, ids⟩ = .ok rootPage' s' ∧
        (SearchExact (fuel + 2) s' rootPage' tuples ↔
          EachLossless (fuel + 2) tuples rootPage ⟨storage, ids⟩) := by
  rcases insertAll_spec (represents_empty hzero hfresh) htuples fuel with hpanic |
    ⟨rootPage', s', shape, hrun, hshape, -, hperm, hlost⟩
  · exact Or.inl hpanic
  · refine Or.inr ⟨rootPage', s', hrun, ?_⟩
    constructor
    · intro hexact
      by_contra hnot
      have hless := hlost hnot
      rw [hexact.length_eq hshape] at hless
      exact absurd hless (by simp [Shape.searchable])
    · intro heach
      apply searchExact_of_perm hshape
      simpa [Shape.searchable] using hperm heach

theorem search_exact_iff_eachLossless_oneTuple :
    ∃ rootPage' s',
      insertAll 2 8192 [⟨[1], (7, 0), ⟨0⟩⟩] ⟨1⟩ ⟨EphemeralStorage.new, [⟨2⟩, ⟨3⟩]⟩ =
        .ok rootPage' s' ∧
      (SearchExact 2 s' rootPage' [⟨[1], (7, 0), ⟨0⟩⟩] ↔
        EachLossless 2 [⟨[1], (7, 0), ⟨0⟩⟩] ⟨1⟩
          (⟨EphemeralStorage.new, [⟨2⟩, ⟨3⟩]⟩ : IndexStore EphemeralStorage)) := by
  refine (search_exact_iff_eachLossless 0 EphemeralStorage.new ⟨1⟩ [⟨2⟩, ⟨3⟩]
    [⟨[1], (7, 0), ⟨0⟩⟩] rfl (by decide) ?_).resolve_left ?_
  · intro tuple htuple
    rw [List.mem_singleton] at htuple
    subst htuple
    exact ⟨by decide, by decide⟩
  · rintro ⟨-, hfew⟩
    exact absurd hfew (by decide)

/-- Page ids from 2 on. -/
def manyIds : List PageId := (List.range 258).map fun n => ⟨UInt32.ofNat (n + 2)⟩

theorem manyIds_nodup : ((⟨1⟩ : PageId) :: manyIds).Nodup := by
  have hval : ∀ n ∈ List.range 258, (UInt32.ofNat (n + 2)).toNat = n + 2 := by
    intro n hn
    have hlt := List.mem_range.mp hn
    rw [UInt32.toNat_ofNat']
    omega
  apply List.nodup_cons.mpr
  constructor
  · intro hmem
    obtain ⟨n, hn, heq⟩ := List.mem_map.mp hmem
    have htwo := hval n hn
    rw [PageId.mk.inj heq] at htwo
    exact absurd htwo (by simp)
  · apply List.nodup_range.map_on
    intro a ha b hb heq
    have htwo := hval b hb
    rw [← PageId.mk.inj heq, hval a ha] at htwo
    omega

/-- With 129 equal keys, one of them is never found again. -/
theorem equal_keys_lose_one :
    ∃ rootPage' s',
      insertAll 2 8192 (List.replicate 129 ⟨[1], (7, 0), ⟨0⟩⟩) ⟨1⟩
          ⟨EphemeralStorage.new, manyIds⟩ = .ok rootPage' s' ∧
        ¬SearchExact 2 s' rootPage' (List.replicate 129 ⟨[1], (7, 0), ⟨0⟩⟩) := by
  have htuples : ∀ tuple ∈ List.replicate 129 (⟨[1], (7, 0), ⟨0⟩⟩ : IndexTuple),
      Indexable tuple := by
    intro tuple htuple
    rw [List.eq_of_mem_replicate htuple]
    exact ⟨by decide, by decide⟩
  rcases insertAll_spec (represents_empty (EphemeralStorage.readPage_eq EphemeralStorage.new ⟨1⟩)
    manyIds_nodup) htuples 0 with ⟨-, hfew⟩ | ⟨rootPage', s', shape, hrun, hshape, -⟩
  · simp [manyIds] at hfew
  · refine ⟨rootPage', s', hrun, fun hexact => ?_⟩
    obtain ⟨hits, hsearch, hperm⟩ := hexact [1]
    rw [search_ok hshape 0] at hsearch
    cases hsearch
    have hle := hshape.wellFormed.searchable_key_le [1]
    have hlen := hperm.length_eq
    simp only [List.length_map] at hlen
    rw [List.filter_replicate_of_pos (by decide), List.length_replicate] at hlen
    omega

end Runs

end PostgressRs.Btree.SearchComplete
