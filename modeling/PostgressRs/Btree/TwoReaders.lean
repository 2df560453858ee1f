import Mathlib.Algebra.BigOperators.Group.List.Basic
import PostgressRs.Btree.SearchComplete
import PostgressRs.Executor.IndexAccess

/-!
The two ways an index is read: `btree_search` descends to the last separator that
is not above the key, `walk_btree` to the first one that is not below it.
-/

namespace PostgressRs.Btree.TwoReaders

open PostgressRs.Btree.IndexPage
open PostgressRs.Btree.PageCodec
open PostgressRs.Btree.SearchComplete
open PostgressRs.Btree.TreeAccess
open PostgressRs.Btree.TreeShape
open PostgressRs.Btree.TreeSteps
open PostgressRs.Executor.IndexAccess
open PostgressRs.Lib.ByteBuffer
open PostgressRs.Lib.Procedure
open PostgressRs.Storage.PageStore
open PostgressRs.Types

section Walk

variable {σ : Type} [StorageTrait σ] {storage : σ} {pageId : PageId}

/-- The loop without a count finds the same entries. -/
theorem walkEntries_laid {data : Bytes} {page : BTreePage} (h : Laid data page)
    (hreadable : ∀ tuple ∈ page.keys, Readable tuple) :
    64 ≤ data.length ∧ walkEntries data = some (page.keys.map unowned) := by
  obtain ⟨byte, header, room, rfl, hheader, -⟩ := h
  have hfront : (byte :: header).length = 64 := by rw [List.length_cons, hheader]
  have hlen : (byte :: header ++ encodeEntries page.keys ++ List.replicate room 0).length =
      64 + (page.keys.map fun tuple => tuple.key.length + 10).sum + room := by
    rw [List.length_append, List.length_append, hfront, encodeEntries_length,
      List.length_replicate]
  refine ⟨by omega, ?_⟩
  have hmany : page.keys.length ≤ (page.keys.map fun tuple => tuple.key.length + 10).sum := by
    have hsum := List.length_le_sum_of_one_le (page.keys.map fun tuple => tuple.key.length + 10)
      (by simp)
    rwa [List.length_map] at hsum
  rw [walkEntries, hlen, ← hfront]
  exact readEntries_eq page.keys _ room (byte :: header) hreadable (by omega)

theorem walkBtree_leaf {entries : List IndexTuple} (h : LeafAt storage pageId entries)
    (hentries : LeafEntries entries) {key : Bytes} (hkey : key ≠ []) (fuel : Nat) :
    walkBtree storage key (fuel + 1) pageId =
      some ((entries.filter fun entry => entry.key = key).map IndexTuple.heapPointer) := by
  obtain ⟨left, right, data, hread, -, hlaid⟩ := h
  obtain ⟨hlen, hwalk⟩ := walkEntries_laid hlaid fun tuple htuple =>
    (hentries.indexable tuple htuple).readable
  obtain ⟨byte, header, room, hdata, -, hbyte⟩ := hlaid
  have hfirst : data[0]? = some byte := by
    rw [hdata]
    rfl
  rw [hentries.map_unowned] at hwalk
  rw [walkBtree, hread]
  simp only [if_neg (not_lt.mpr hlen), hfirst, Option.bind_eq_bind, Option.bind_some]
  rcases hbyte with rfl | ⟨rfl, -, hempty⟩
  · have htype : walkedType (pageTypeByte .leaf) = some .leaf := rfl
    simp [htype, hwalk, hkey]
  · have htype : walkedType 0 = some .metaPage := rfl
    simp only at hempty
    subst hempty
    simp [htype, hwalk]

/-- The walk goes left of the separator for the separator itself. -/
theorem walkBtree_fork {separator key : Bytes} {left right : PageId}
    (h : ForkAt storage pageId separator left right)
    (hseparator : separator ≠ [] ∧ separator.length ≤ 53) (hkey : key ≠ []) (fuel : Nat) :
    walkBtree storage key (fuel + 1) pageId =
      walkBtree storage key fuel (if key ≤ separator then left else right) := by
  obtain ⟨level, leftSibling, rightSibling, data, hread, -, hlaid⟩ := h
  have hreadable : ∀ tuple ∈ rootEntries separator left right, Readable tuple := by
    intro tuple htuple
    have hkeyEq : tuple.key = separator := by
      simp only [rootEntries, List.mem_cons, List.not_mem_nil, or_false] at htuple
      rcases htuple with rfl | rfl <;> rfl
    exact Indexable.readable ⟨hkeyEq ▸ hseparator.1, hkeyEq ▸ hseparator.2⟩
  obtain ⟨hlen, hwalk⟩ := walkEntries_laid hlaid hreadable
  obtain ⟨byte, header, room, hdata, -, hbyte⟩ := hlaid
  have hfirst : data[0]? = some byte := by
    rw [hdata]
    rfl
  have hbyteRoot : byte = pageTypeByte .root := by
    rcases hbyte with hbyte | ⟨-, hleaf, -⟩
    · exact hbyte
    · cases hleaf
  have htype : walkedType byte = some .root := by
    rw [hbyteRoot]
    rfl
  have hentry : walkedEntry key ((rootEntries separator left right).map unowned) =
      if key ≤ separator then some ⟨separator, (left.val, 0), ⟨0⟩⟩
      else some ⟨separator, (right.val, 0), ⟨0⟩⟩ := by
    by_cases hle : key ≤ separator
    · simp [walkedEntry, rootEntries, unowned, hle]
    · simp [walkedEntry, rootEntries, unowned, hle, hkey]
  rw [walkBtree, hread]
  simp only [if_neg (not_lt.mpr hlen), hfirst, Option.bind_eq_bind, Option.bind_some, htype, hwalk,
    hentry]
  by_cases hle : key ≤ separator
  · simp [hle]
  · simp [hle]

end Walk

section Distinct

/-- With the keys still to be inserted all keys differ, as long as there is one
leaf; then the left leaf has only keys below the separator. -/
def Separated : Shape → List Bytes → Prop
  | .single entries, keys => (entries.map IndexTuple.key ++ keys).Nodup
  | .fork separator _ lefts _ _, _ => ∀ entry ∈ lefts, entry.key < separator

variable {entries : List IndexTuple} {tuple : IndexTuple}

theorem separated_empty {tuples : List IndexTuple} (h : (tuples.map IndexTuple.key).Nodup) :
    Separated (.single []) (tuples.map IndexTuple.key) := by
  rw [Separated, List.map_nil, List.nil_append]
  exact h

theorem put_keys_perm (h : LeafEntries entries) :
    ((put entries tuple).map IndexTuple.key).Perm (tuple.key :: entries.map IndexTuple.key) :=
  (put_perm h tuple).map IndexTuple.key

/-- Different keys stay different across the middle of a leaf. -/
theorem middle_apart {keys : List Bytes} (h : (entries.map IndexTuple.key ++ keys).Nodup)
    {a b : IndexTuple} (ha : entries[63]? = some a) (hb : entries[64]? = some b) :
    a.key ≠ b.key := by
  intro hequal
  have hnodup := (List.nodup_append.mp h).1
  have hka : (entries.map IndexTuple.key)[63]? = some b.key := by simp [ha, hequal]
  have hkb : (entries.map IndexTuple.key)[64]? = some b.key := by simp [hb]
  have hlt : 63 < (entries.map IndexTuple.key).length := (List.getElem?_eq_some_iff.mp hka).1
  have hindex := (List.getElem?_inj hlt hnodup).mp (hka.trans hkb.symm)
  exact absurd hindex (by decide)

theorem Separated.step {shape shape' : Shape} {keys : List Bytes}
    (h : Separated shape (tuple.key :: keys)) (hstep : shape.Step tuple shape')
    (hwell : shape.WellFormed) : Separated shape' keys := by
  cases hstep with
  | @room entries hroom =>
      have hentries : LeafEntries entries := hwell
      have hput : ((put entries tuple).map IndexTuple.key).Perm
          (tuple.key :: entries.map IndexTuple.key) := put_keys_perm hentries
      have hperm := hput.append_right keys
      exact (hperm.trans List.perm_middle.symm).nodup_iff.mpr h
  | @grow entries _ _ hfull =>
      have hentries : LeafEntries entries := hwell
      intro entry hentry
      exact lowerHalf_lt_middleKey hentries hfull (fun _ _ => middle_apart h) hentry
  | @leftRoom _ _ lefts _ _ hkey hroom =>
      intro entry hentry
      rcases List.mem_cons.mp ((put_perm hwell.1 tuple).subset hentry) with rfl | hold
      · exact hkey
      · exact h entry hold
  | @leftSplit _ _ lefts _ _ _ hkey hfull =>
      intro entry hentry
      have hmem := (halves_perm hwell.1 tuple).subset (List.mem_append_right _ hentry)
      rcases List.mem_cons.mp hmem with rfl | hold
      · exact hkey
      · exact h entry hold
  | rightRoom hkey hroom => exact h
  | rightSplit hkey hfull => exact h

variable {σ : Type} [StorageTrait σ] [LawfulStorage σ]

theorem insertAll_separated {s s' : IndexStore σ} {rootPage rootPage' : PageId} {shape : Shape}
    {tuples : List IndexTuple} (h : Represents s rootPage shape)
    (hseparated : Separated shape (tuples.map IndexTuple.key))
    (htuples : ∀ tuple ∈ tuples, Indexable tuple) {fuel : Nat}
    (hrun : insertAll (fuel + 2) 8192 tuples rootPage s = .ok rootPage' s') :
    ∃ shape', Represents s' rootPage' shape' ∧ Separated shape' [] := by
  induction tuples generalizing s rootPage shape with
  | nil =>
      cases hrun
      exact ⟨shape, h, hseparated⟩
  | cons tuple tuples ih =>
      obtain ⟨rootPage₁, s₁, hinsert, hrest⟩ := bind_eq_ok.mp hrun
      rcases insert_step h (htuples tuple List.mem_cons_self) fuel with ⟨hpanic, -⟩ |
        ⟨_, _, shape₁, hok, hstep, hshape₁, -⟩
      · rw [hpanic] at hinsert
        cases hinsert
      · rw [hok] at hinsert
        cases hinsert
        exact ih hshape₁ (hseparated.step hstep h.wellFormed)
          (fun other hother => htuples other (List.mem_cons_of_mem _ hother)) hrest

end Distinct

section Agreement

variable {σ : Type} [StorageTrait σ]

/-- Both readers return, and with the same heap pointers. -/
def ReadersAgree (fuel : Nat) (s : IndexStore σ) (rootPage : PageId) (key : Bytes) : Prop :=
  ∃ hits found, btreeSearch fuel rootPage key s = .ok hits s ∧
    walkBtree s.storage key fuel rootPage = some found ∧
    found.Perm (hits.map IndexTuple.heapPointer)

/-- The key is a separator of the root page, and the page that the root's last
entry points to has an entry under it. -/
def SeparatorHeld (s : IndexStore σ) (rootPage : PageId) (key : Bytes) : Prop :=
  ∃ root last leaf, fetchPage rootPage s = .ok root s ∧
    (∃ entry ∈ root.keys, entry.key = key) ∧ root.keys.getLast? = some last ∧
    fetchPage ⟨last.heapPointer.1⟩ s = .ok leaf s ∧ ∃ entry ∈ leaf.keys, entry.key = key

variable {s : IndexStore σ} {rootPage : PageId} {separator : Bytes} {left right : PageId}
  {lefts rights : List IndexTuple}

theorem separatorHeld_fork (hfork : ForkAt s.storage rootPage separator left right)
    (hright : LeafAt s.storage right rights) (key : Bytes) :
    SeparatorHeld s rootPage key ↔ key = separator ∧ ∃ entry ∈ rights, entry.key = key := by
  obtain ⟨level, leftSibling, rightSibling, hroot⟩ := hfork
  obtain ⟨leftSib, rightSib, hleaf⟩ := hright
  have hfetchRoot := fetchPage_ok hroot
  have hfetchLeaf := fetchPage_ok hleaf
  constructor
  · rintro ⟨root, last, leaf, hfetch, ⟨entry, hentry, hkey⟩, hlast, hfetch', hheld⟩
    rw [hfetchRoot] at hfetch
    cases hfetch
    simp only [rootEntries, List.mem_cons, List.not_mem_nil, or_false] at hentry
    have hlast' : last = ⟨separator, (right.val, 0), ⟨0⟩⟩ := (Option.some.inj hlast).symm
    subst hlast'
    change fetchPage right s = _ at hfetch'
    rw [hfetchLeaf] at hfetch'
    cases hfetch'
    rcases hentry with rfl | rfl
    · exact ⟨hkey.symm, hheld⟩
    · exact ⟨hkey.symm, hheld⟩
  · rintro ⟨rfl, hheld⟩
    exact ⟨_, _, _, hfetchRoot, ⟨_, List.mem_cons_self, rfl⟩, rfl, hfetchLeaf, hheld⟩

theorem readersAgree_fork
    (h : Represents s rootPage (.fork separator left lefts right rights))
    (hbelow : ∀ entry ∈ lefts, entry.key < separator) {key : Bytes} (hkey : key ≠ [])
    (fuel : Nat) :
    ReadersAgree (fuel + 2) s rootPage key ↔ ¬SeparatorHeld s rootPage key := by
  obtain ⟨hfork, hleft, hright⟩ := h.stored
  obtain ⟨hlefts, hrights, hle, hseparator⟩ := h.wellFormed
  have hsearch := search_ok h fuel key
  have hwalk := walkBtree_fork hfork hseparator hkey (fuel + 1)
  have hall : Shape.searchable (.fork separator left lefts right rights) = lefts ++ rights := by
    rw [Shape.searchable, List.filter_eq_self.mpr (by simpa using hbelow),
      List.filter_eq_self.mpr (by simpa using hle)]
  rw [hall, List.filter_append] at hsearch
  rw [separatorHeld_fork hfork hright]
  have hleftNone : separator ≤ key → lefts.filter (fun entry => entry.key = key) = [] := by
    intro hsep
    apply List.filter_eq_nil_iff.mpr
    intro entry hentry
    simpa using ne_of_lt (lt_of_lt_of_le (hbelow entry hentry) hsep)
  have hrightNone : key < separator → rights.filter (fun entry => entry.key = key) = [] := by
    intro hsep
    apply List.filter_eq_nil_iff.mpr
    intro entry hentry
    simpa using ne_of_gt (lt_of_lt_of_le hsep (hle entry hentry))
  rcases lt_trichotomy key separator with hlt | rfl | hgt
  · rw [if_pos hlt.le, walkBtree_leaf hleft hlefts hkey] at hwalk
    rw [hrightNone hlt, List.append_nil] at hsearch
    exact iff_of_true ⟨_, _, hsearch, hwalk, List.Perm.refl _⟩ fun hheld =>
      absurd hheld.1 (ne_of_lt hlt)
  · rw [if_pos le_rfl, walkBtree_leaf hleft hlefts hkey, hleftNone le_rfl, List.map_nil] at hwalk
    rw [hleftNone le_rfl, List.nil_append] at hsearch
    constructor
    · rintro ⟨hits, found, hsearch', hwalk', hperm⟩ ⟨-, entry, hentry, hequal⟩
      rw [hsearch] at hsearch'
      cases hsearch'
      rw [hwalk] at hwalk'
      cases hwalk'
      have hmem : entry.heapPointer ∈
          (rights.filter fun entry => entry.key = key).map IndexTuple.heapPointer :=
        List.mem_map_of_mem (List.mem_filter.mpr ⟨hentry, by simpa using hequal⟩)
      exact absurd (hperm.symm.subset hmem) List.not_mem_nil
    · intro hfree
      have hnone : rights.filter (fun entry => entry.key = key) = [] := by
        apply List.filter_eq_nil_iff.mpr
        intro entry hentry hequal
        exact hfree ⟨rfl, entry, hentry, by simpa using hequal⟩
      refine ⟨_, _, hsearch, hwalk, ?_⟩
      rw [hnone]
      exact List.Perm.refl _
  · rw [if_neg (not_le.mpr hgt), walkBtree_leaf hright hrights hkey] at hwalk
    rw [hleftNone hgt.le, List.nil_append] at hsearch
    exact iff_of_true ⟨_, _, hsearch, hwalk, List.Perm.refl _⟩ fun hheld =>
      absurd hheld.1 (ne_of_gt hgt)

variable [LawfulStorage σ] {storage : σ} {rootPage' : PageId} {ids : List PageId}
  {tuples : List IndexTuple} {s' : IndexStore σ} {fuel : Nat}

/-- In a tree with a split, the two readers agree on a key unless it is the
separator and its entry is still in the right leaf. -/
theorem readers_agree_iff (hzero : readPage storage rootPage = .ok zeroPage)
    (hfresh : (rootPage :: ids).Nodup) (htuples : ∀ tuple ∈ tuples, Indexable tuple)
    (hdistinct : (tuples.map IndexTuple.key).Nodup)
    (hrun : insertAll (fuel + 2) 8192 tuples rootPage ⟨storage, ids⟩ = .ok rootPage' s')
    (hsplit : ∃ root, fetchPage rootPage' s' = .ok root s' ∧ root.pageType ≠ .leaf)
    {key : Bytes} (hkey : key ≠ []) :
    ReadersAgree (fuel + 2) s' rootPage' key ↔ ¬SeparatorHeld s' rootPage' key := by
  obtain ⟨shape, hshape, hbelow⟩ := insertAll_separated (represents_empty hzero hfresh)
    (separated_empty hdistinct) htuples hrun
  cases shape with
  | single entries =>
      obtain ⟨left, right, hpage⟩ := hshape.stored
      obtain ⟨root, hfetch, htype⟩ := hsplit
      rw [fetchPage_ok hpage] at hfetch
      cases hfetch
      exact absurd rfl htype
  | fork separator left lefts right rights => exact readersAgree_fork hshape hbelow hkey fuel

end Agreement

section FirstSplit

variable {σ : Type} [StorageTrait σ] [LawfulStorage σ]

/-- The 129th entry splits the leaf. -/
theorem insertAll_splits {s s' : IndexStore σ} {rootPage rootPage' : PageId}
    {entries tuples : List IndexTuple} (h : Represents s rootPage (.single entries))
    (htuples : ∀ tuple ∈ tuples, Indexable tuple) (hpos : tuples ≠ [])
    (hcount : entries.length + tuples.length = 129)
    (hseparated : Separated (.single entries) (tuples.map IndexTuple.key)) {fuel : Nat}
    (hrun : insertAll (fuel + 2) 8192 tuples rootPage s = .ok rootPage' s') :
    ∃ full tuple left right, full.length = 128 ∧ LeafEntries full ∧
      (∀ entry ∈ lowerHalf full tuple, entry.key < middleKey full) ∧
      Represents s' rootPage'
        (.fork (middleKey full) left (lowerHalf full tuple) right (upperHalf full tuple)) := by
  induction tuples generalizing s rootPage entries with
  | nil => exact absurd rfl hpos
  | cons tuple tuples ih =>
      obtain ⟨rootPage₁, s₁, hinsert, hrest⟩ := bind_eq_ok.mp hrun
      have hentries : LeafEntries entries := h.wellFormed
      rw [List.length_cons] at hcount
      rcases insert_step h (htuples tuple List.mem_cons_self) fuel with ⟨hpanic, -⟩ |
        ⟨_, _, shape₁, hok, hstep, hshape₁, -⟩
      · rw [hpanic] at hinsert
        cases hinsert
      · rw [hok] at hinsert
        cases hinsert
        cases hstep with
        | room hroom =>
            refine ih hshape₁ (fun other hother => htuples other (List.mem_cons_of_mem _ hother))
              ?_ ?_ (hseparated.step (.room hroom) hentries) hrest
            · rintro rfl
              simp only [List.length_nil] at hcount
              omega
            · rw [put_length hentries]
              omega
        | @grow _ left right hfull =>
            have hlast : tuples = [] := List.eq_nil_of_length_eq_zero (by omega)
            subst hlast
            cases hrest
            have hgrow : Shape.Step tuple (.single entries)
                (.fork (middleKey entries) left (lowerHalf entries tuple) right
                  (upperHalf entries tuple)) := .grow hfull
            exact ⟨entries, tuple, left, right, hfull, hentries, hseparated.step hgrow hentries,
              hshape₁⟩

omit [StorageTrait σ] [LawfulStorage σ] in
/-- The separator of a split is the key of an entry of the right half. -/
theorem middleKey_mem_upperHalf {full : List IndexTuple} (hfull : full.length = 128)
    (h : LeafEntries full) (tuple : IndexTuple) :
    ∃ entry ∈ upperHalf full tuple, entry.key = middleKey full := by
  obtain ⟨first, rest, hdrop, hmiddle⟩ := exists_middle hfull
  have hfirst : first ∈ full.drop 64 := by simp [hdrop]
  refine ⟨first, ?_, hmiddle.symm⟩
  unfold upperHalf
  split
  · exact hfirst
  · exact (put_perm (h.drop 64) tuple).symm.subset (List.mem_cons_of_mem _ hfirst)

/-- One entry under each of the keys 1 to 129. -/
def countedTuples : List IndexTuple :=
  (List.range 129).map fun n => ⟨[UInt8.ofNat (n + 1)], (7, 0), ⟨0⟩⟩

theorem countedTuples_indexable : ∀ tuple ∈ countedTuples, Indexable tuple := by
  intro tuple htuple
  obtain ⟨n, -, rfl⟩ := List.mem_map.mp htuple
  exact ⟨List.cons_ne_nil _ _, by simp⟩

theorem countedTuples_distinct : (countedTuples.map IndexTuple.key).Nodup := by
  rw [countedTuples, List.map_map]
  apply List.nodup_range.map_on
  intro a ha b hb hequal
  have hbyte : UInt8.ofNat (a + 1) = UInt8.ofNat (b + 1) := List.head_eq_of_cons_eq hequal
  have hval := congrArg UInt8.toNat hbyte
  have hlta := List.mem_range.mp ha
  have hltb := List.mem_range.mp hb
  rw [UInt8.toNat_ofNat', UInt8.toNat_ofNat', Nat.mod_eq_of_lt (by omega),
    Nat.mod_eq_of_lt (by omega)] at hval
  omega

theorem countedTuples_inserted :
    ∃ rootPage' s' full tuple left right,
      insertAll 2 8192 countedTuples ⟨1⟩ ⟨EphemeralStorage.new, manyIds⟩ = .ok rootPage' s' ∧
      full.length = 128 ∧ LeafEntries full ∧
      (∀ entry ∈ lowerHalf full tuple, entry.key < middleKey full) ∧
      Represents s' rootPage'
        (.fork (middleKey full) left (lowerHalf full tuple) right (upperHalf full tuple)) := by
  have hempty := represents_empty (EphemeralStorage.readPage_eq EphemeralStorage.new ⟨1⟩)
    manyIds_nodup
  rcases insertAll_spec hempty countedTuples_indexable 0 with ⟨-, hfew⟩ |
    ⟨rootPage', s', _, hrun, -⟩
  · simp [manyIds, countedTuples] at hfew
  · obtain ⟨full, tuple, left, right, hfull⟩ := insertAll_splits hempty countedTuples_indexable
      (by simp [countedTuples]) (by simp [countedTuples]) (separated_empty countedTuples_distinct)
      hrun
    exact ⟨rootPage', s', full, tuple, left, right, hrun, hfull⟩

/-- After the first split the readers disagree on the separator. -/
theorem separator_not_walked :
    ∃ rootPage' s' root key,
      insertAll 2 8192 countedTuples ⟨1⟩ ⟨EphemeralStorage.new, manyIds⟩ = .ok rootPage' s' ∧
      fetchPage rootPage' s' = .ok root s' ∧ root.pageType ≠ .leaf ∧ key ≠ [] ∧
      ¬ReadersAgree 2 s' rootPage' key := by
  obtain ⟨rootPage', s', full, tuple, left, right, hrun, hfull, hentries, hbelow,
    hshape⟩ := countedTuples_inserted
  have hright := hshape.stored.2.2
  obtain ⟨level, leftSibling, rightSibling, hpage⟩ := hshape.stored.1
  obtain ⟨hnonempty, -⟩ := middleKey_indexable hentries hfull
  refine ⟨rootPage', s', _, middleKey full, hrun, fetchPage_ok hpage, by simp, hnonempty, ?_⟩
  rw [readersAgree_fork hshape hbelow hnonempty 0, not_not,
    separatorHeld_fork hshape.stored.1 hright]
  exact ⟨rfl, middleKey_mem_upperHalf hfull hentries tuple⟩

theorem readers_agree_iff_lastKey :
    ∃ rootPage' s',
      insertAll 2 8192 countedTuples ⟨1⟩ ⟨EphemeralStorage.new, manyIds⟩ = .ok rootPage' s' ∧
      (ReadersAgree 2 s' rootPage' [129] ↔ ¬SeparatorHeld s' rootPage' [129]) := by
  obtain ⟨rootPage', s', full, tuple, left, right, hrun, -, -, -, hshape⟩ := countedTuples_inserted
  obtain ⟨level, leftSibling, rightSibling, hpage⟩ := hshape.stored.1
  refine ⟨rootPage', s', hrun, ?_⟩
  exact readers_agree_iff (EphemeralStorage.readPage_eq EphemeralStorage.new ⟨1⟩) manyIds_nodup
    countedTuples_indexable countedTuples_distinct hrun ⟨_, fetchPage_ok hpage, by simp⟩
    (List.cons_ne_nil _ _)

end FirstSplit

end PostgressRs.Btree.TwoReaders
