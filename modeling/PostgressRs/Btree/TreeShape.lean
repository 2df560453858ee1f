import PostgressRs.Btree.PageCodec
import PostgressRs.Btree.TreeAccess

/-!
The shapes an index passes through: a single leaf, then a root over two leaves.
An insertion that splits a leaf below the root drops half of its entries, so
the root never gets a third child.
-/

namespace PostgressRs.Btree.TreeShape

open PostgressRs.Btree.IndexPage
open PostgressRs.Btree.PageCodec
open PostgressRs.Btree.TreeAccess
open PostgressRs.Lib.ByteBuffer
open PostgressRs.Lib.SortedSearch
open PostgressRs.Types

def Sorted (entries : List IndexTuple) : Prop :=
  entries.Pairwise fun a b => a.key ≤ b.key

/-- The entries a leaf can hold. -/
structure LeafEntries (entries : List IndexTuple) : Prop where
  sorted : Sorted entries
  indexable : ∀ entry ∈ entries, Indexable entry
  count : entries.length ≤ 128
  unowned : ∀ entry ∈ entries, unowned entry = entry

/-- A leaf after `tuple` was put into it. -/
def put (entries : List IndexTuple) (tuple : IndexTuple) : List IndexTuple :=
  (insertByKey IndexTuple.key entries tuple).map unowned

/-- The key of the first entry of the right half of a full leaf. -/
def middleKey (entries : List IndexTuple) : Bytes :=
  ((entries.drop 64).head?.map IndexTuple.key).getD []

/-- What stays in a full leaf that splits. -/
def lowerHalf (entries : List IndexTuple) (tuple : IndexTuple) : List IndexTuple :=
  if tuple.key < middleKey entries then put (entries.take 64) tuple else entries.take 64

/-- What moves to the new page. -/
def upperHalf (entries : List IndexTuple) (tuple : IndexTuple) : List IndexTuple :=
  if tuple.key < middleKey entries then entries.drop 64 else put (entries.drop 64) tuple

section Leaves

variable {entries : List IndexTuple} {tuple : IndexTuple}

@[simp] theorem unowned_key (tuple : IndexTuple) : (unowned tuple).key = tuple.key := rfl

theorem LeafEntries.map_unowned (h : LeafEntries entries) :
    entries.map PageCodec.unowned = entries := by
  conv_rhs => rw [← List.map_id entries]
  exact List.map_congr_left h.unowned

theorem put_perm (h : LeafEntries entries) (tuple : IndexTuple) :
    (put entries tuple).Perm (unowned tuple :: entries) := by
  have hperm := (insertByKey_perm IndexTuple.key h.sorted tuple).map unowned
  rwa [List.map_cons, h.map_unowned] at hperm

/-- Among the entries of one side of a separator, `put` adds the tuple. -/
theorem filter_put_perm (h : LeafEntries entries) {p : IndexTuple → Bool}
    (hp : p (unowned tuple) = true) :
    ((put entries tuple).filter p).Perm (unowned tuple :: entries.filter p) := by
  have hperm := (put_perm h tuple).filter p
  rwa [List.filter_cons_of_pos hp] at hperm

theorem put_length (h : LeafEntries entries) (tuple : IndexTuple) :
    (put entries tuple).length = entries.length + 1 :=
  (put_perm h tuple).length_eq

theorem put_sorted (h : LeafEntries entries) (tuple : IndexTuple) :
    Sorted (put entries tuple) := by
  have hsorted := insertByKey_sorted IndexTuple.key h.sorted tuple
  exact List.pairwise_map.mpr hsorted

theorem LeafEntries.put (h : LeafEntries entries) (htuple : Indexable tuple)
    (hroom : entries.length < 128) : LeafEntries (put entries tuple) where
  sorted := put_sorted h tuple
  indexable := by
    intro entry hentry
    rcases List.mem_cons.mp ((put_perm h tuple).subset hentry) with rfl | hold
    · exact ⟨htuple.nonempty, htuple.short⟩
    · exact h.indexable entry hold
  count := by
    rw [put_length h tuple]
    exact hroom
  unowned := by
    intro entry hentry
    obtain ⟨source, -, rfl⟩ := List.mem_map.mp hentry
    rfl

theorem LeafEntries.sublist {entries' : List IndexTuple} (h : LeafEntries entries)
    (hsub : entries'.Sublist entries) : LeafEntries entries' where
  sorted := List.Pairwise.sublist hsub h.sorted
  indexable entry hentry := h.indexable entry (hsub.subset hentry)
  count := le_trans hsub.length_le h.count
  unowned entry hentry := h.unowned entry (hsub.subset hentry)

theorem LeafEntries.take (h : LeafEntries entries) (count : Nat) :
    LeafEntries (entries.take count) :=
  h.sublist (List.take_sublist _ _)

theorem LeafEntries.drop (h : LeafEntries entries) (count : Nat) :
    LeafEntries (entries.drop count) :=
  h.sublist (List.drop_sublist _ _)

theorem take_le_drop (h : Sorted entries) {count : Nat} {a b : IndexTuple}
    (ha : a ∈ entries.take count) (hb : b ∈ entries.drop count) : a.key ≤ b.key := by
  unfold Sorted at h
  rw [← List.take_append_drop count entries, List.pairwise_append] at h
  exact h.2.2 a ha b hb

/-- A full leaf, cut in the middle. -/
theorem exists_middle (hcount : entries.length = 128) :
    ∃ first rest, entries.drop 64 = first :: rest ∧ middleKey entries = first.key := by
  cases hdrop : entries.drop 64 with
  | nil =>
      have hlen := congrArg List.length hdrop
      simp [hcount] at hlen
  | cons first rest => exact ⟨first, rest, rfl, by simp [middleKey, hdrop]⟩

theorem middleKey_indexable (h : LeafEntries entries) (hcount : entries.length = 128) :
    middleKey entries ≠ [] ∧ (middleKey entries).length ≤ 53 := by
  obtain ⟨first, rest, hdrop, hmiddle⟩ := exists_middle hcount
  have hfirst := h.indexable first (List.mem_of_mem_drop (i := 64) (by simp [hdrop]))
  rw [hmiddle]
  exact ⟨hfirst.nonempty, hfirst.short⟩

theorem take_le_middleKey (h : LeafEntries entries) (hcount : entries.length = 128)
    {entry : IndexTuple} (hentry : entry ∈ entries.take 64) : entry.key ≤ middleKey entries := by
  obtain ⟨first, rest, hdrop, hmiddle⟩ := exists_middle hcount
  rw [hmiddle]
  exact take_le_drop h.sorted hentry (by simp [hdrop])

theorem middleKey_le_drop (h : LeafEntries entries) (hcount : entries.length = 128)
    {entry : IndexTuple} (hentry : entry ∈ entries.drop 64) : middleKey entries ≤ entry.key := by
  obtain ⟨first, rest, hdrop, hmiddle⟩ := exists_middle hcount
  have hsorted := (h.drop 64).sorted
  rw [hdrop] at hentry hsorted
  rw [hmiddle]
  rcases List.mem_cons.mp hentry with rfl | hrest
  · exact le_rfl
  · exact (List.pairwise_cons.mp hsorted).1 entry hrest

theorem LeafEntries.lowerHalf (h : LeafEntries entries) (htuple : Indexable tuple) :
    LeafEntries (lowerHalf entries tuple) := by
  unfold TreeShape.lowerHalf
  split
  · exact (h.take 64).put htuple (by rw [List.length_take]; omega)
  · exact h.take 64

theorem LeafEntries.upperHalf (h : LeafEntries entries) (htuple : Indexable tuple) :
    LeafEntries (upperHalf entries tuple) := by
  have hcount := h.count
  unfold TreeShape.upperHalf
  split
  · exact h.drop 64
  · exact (h.drop 64).put htuple (by rw [List.length_drop]; omega)

/-- The split as such loses nothing. -/
theorem halves_perm (h : LeafEntries entries) (tuple : IndexTuple) :
    (lowerHalf entries tuple ++ upperHalf entries tuple).Perm (unowned tuple :: entries) := by
  have hall := List.take_append_drop 64 entries
  unfold lowerHalf upperHalf
  split
  · have hperm := (put_perm (h.take 64) tuple).append_right (entries.drop 64)
    rwa [List.cons_append, hall] at hperm
  · have hperm := (put_perm (h.drop 64) tuple).append_left (entries.take 64)
    have hmiddle := hperm.trans List.perm_middle
    rwa [hall] at hmiddle

theorem middleKey_le_upperHalf (h : LeafEntries entries) (hcount : entries.length = 128)
    {entry : IndexTuple} (hentry : entry ∈ upperHalf entries tuple) :
    middleKey entries ≤ entry.key := by
  unfold upperHalf at hentry
  split at hentry
  · exact middleKey_le_drop h hcount hentry
  · rename_i hle
    rcases List.mem_cons.mp ((put_perm (h.drop 64) tuple).subset hentry) with rfl | hold
    · exact not_lt.mp hle
    · exact middleKey_le_drop h hcount hold

theorem upperHalf_length_le (h : LeafEntries entries) (hcount : entries.length = 128) :
    (upperHalf entries tuple).length ≤ 65 := by
  unfold upperHalf
  split
  · rw [List.length_drop]
    omega
  · rw [put_length (h.drop 64), List.length_drop]
    omega

/-- Halves that share no key are separated by the key pushed up. -/
theorem lowerHalf_lt_middleKey (h : LeafEntries entries) (hcount : entries.length = 128)
    (hapart : ∀ a b, entries[63]? = some a → entries[64]? = some b → a.key ≠ b.key)
    {entry : IndexTuple} (hentry : entry ∈ lowerHalf entries tuple) :
    entry.key < middleKey entries := by
  have htake : ∀ entry ∈ entries.take 64, entry.key < middleKey entries := by
    intro entry hentry
    obtain ⟨first, rest, hdrop, hmiddle⟩ := exists_middle hcount
    have hfirst : entries[64]? = some first := by
      have hhead : (entries.drop 64)[0]? = entries[64]? := List.getElem?_drop
      rw [hdrop] at hhead
      exact hhead.symm
    obtain ⟨last, hlast⟩ : ∃ last, entries[63]? = some last :=
      ⟨entries[63], List.getElem?_eq_getElem (by omega)⟩
    have hle : entry.key ≤ last.key := by
      obtain ⟨i, hi⟩ := List.mem_iff_getElem?.mp hentry
      rw [List.getElem?_take] at hi
      split at hi
      · rcases Nat.lt_or_eq_of_le (Nat.le_of_lt_succ ‹i < 64›) with hlt | rfl
        · obtain ⟨hi', rfl⟩ := List.getElem?_eq_some_iff.mp hi
          obtain ⟨hlast', rfl⟩ := List.getElem?_eq_some_iff.mp hlast
          exact List.pairwise_iff_getElem.mp h.sorted i 63 hi' hlast' hlt
        · rw [hlast] at hi
          cases hi
          exact le_rfl
      · simp at hi
    have hlast_le : last.key ≤ middleKey entries := by
      apply take_le_middleKey h hcount
      apply List.mem_iff_getElem?.mpr
      exact ⟨63, by rw [List.getElem?_take, if_pos (by decide), hlast]⟩
    refine lt_of_le_of_lt hle (lt_of_le_of_ne hlast_le ?_)
    rw [hmiddle]
    exact hapart last first hlast hfirst
  unfold lowerHalf at hentry
  split at hentry
  · rcases List.mem_cons.mp ((put_perm (h.take 64) tuple).subset hentry) with rfl | hold
    · assumption
    · exact htake entry hold
  · exact htake entry hentry

end Leaves

/-- What an index looks like: one leaf, or a root page with one separator and
two leaves. -/
inductive Shape where
  | single (entries : List IndexTuple)
  | fork (separator : Bytes) (left : PageId) (lefts : List IndexTuple) (right : PageId)
      (rights : List IndexTuple)

namespace Shape

/-- The entries a search can reach. -/
def searchable : Shape → List IndexTuple
  | single entries => entries
  | fork separator _ lefts _ rights =>
      lefts.filter (fun entry => entry.key < separator) ++
        rights.filter (fun entry => separator ≤ entry.key)

/-- The leaf a key descends to. -/
def leafFor (key : Bytes) : Shape → List IndexTuple
  | single entries => entries
  | fork separator _ lefts _ rights => if separator ≤ key then rights else lefts

/-- Nothing is lost by the next insertion: its leaf has room, or it is the only
leaf and the two halves of it share no key. -/
def Roomy (tuple : IndexTuple) : Shape → Prop
  | single entries =>
      entries.length < 128 ∨
        ∀ a b, entries[63]? = some a → entries[64]? = some b → a.key ≠ b.key
  | fork separator left lefts right rights =>
      ((fork separator left lefts right rights).leafFor tuple.key).length < 128

def WellFormed : Shape → Prop
  | single entries => LeafEntries entries
  | fork separator _ lefts _ rights =>
      LeafEntries lefts ∧ LeafEntries rights ∧ (∀ entry ∈ rights, separator ≤ entry.key) ∧
        separator ≠ [] ∧ separator.length ≤ 53

/-- What one insertion does. -/
inductive Step (tuple : IndexTuple) : Shape → Shape → Prop
  | room {entries} (hroom : entries.length < 128) :
      Step tuple (single entries) (single (put entries tuple))
  | grow {entries left right} (hfull : entries.length = 128) :
      Step tuple (single entries)
        (fork (middleKey entries) left (lowerHalf entries tuple) right (upperHalf entries tuple))
  | leftRoom {separator left lefts right rights} (hkey : tuple.key < separator)
      (hroom : lefts.length < 128) :
      Step tuple (fork separator left lefts right rights)
        (fork separator left (put lefts tuple) right rights)
  | leftSplit {separator left lefts right rights left'} (hkey : tuple.key < separator)
      (hfull : lefts.length = 128) :
      Step tuple (fork separator left lefts right rights)
        (fork separator left' (upperHalf lefts tuple) right rights)
  | rightRoom {separator left lefts right rights} (hkey : separator ≤ tuple.key)
      (hroom : rights.length < 128) :
      Step tuple (fork separator left lefts right rights)
        (fork separator left lefts right (put rights tuple))
  | rightSplit {separator left lefts right rights right'} (hkey : separator ≤ tuple.key)
      (hfull : rights.length = 128) :
      Step tuple (fork separator left lefts right rights)
        (fork separator left lefts right' (upperHalf rights tuple))

section Steps

variable {tuple : IndexTuple} {shape shape' : Shape}

theorem Step.wellFormed (hstep : Step tuple shape shape') (htuple : Indexable tuple)
    (h : shape.WellFormed) : shape'.WellFormed := by
  cases hstep with
  | room hroom => exact LeafEntries.put h htuple hroom
  | @grow entries _ _ hfull =>
      have hentries : LeafEntries entries := h
      refine ⟨hentries.lowerHalf htuple, hentries.upperHalf htuple, ?_,
        middleKey_indexable hentries hfull⟩
      intro entry hentry
      exact middleKey_le_upperHalf hentries hfull hentry
  | leftRoom hkey hroom =>
      obtain ⟨hlefts, hrest⟩ := h
      exact ⟨hlefts.put htuple hroom, hrest⟩
  | leftSplit hkey hfull =>
      obtain ⟨hlefts, hrest⟩ := h
      exact ⟨hlefts.upperHalf htuple, hrest⟩
  | rightRoom hkey hroom =>
      obtain ⟨hlefts, hrights, hle, hseparator⟩ := h
      refine ⟨hlefts, hrights.put htuple hroom, ?_, hseparator⟩
      intro entry hentry
      rcases List.mem_cons.mp ((put_perm hrights tuple).subset hentry) with rfl | hold
      · exact hkey
      · exact hle entry hold
  | rightSplit hkey hfull =>
      obtain ⟨hlefts, hrights, hle, hseparator⟩ := h
      refine ⟨hlefts, hrights.upperHalf htuple, ?_, hseparator⟩
      intro entry hentry
      have hmem := (halves_perm hrights tuple).subset (List.mem_append_right _ hentry)
      rcases List.mem_cons.mp hmem with rfl | hold
      · exact hkey
      · exact hle entry hold

/-- An insertion that loses nothing adds its tuple to what can be found. -/
theorem Step.searchable_perm (hstep : Step tuple shape shape') (h : shape.WellFormed)
    (hroomy : shape.Roomy tuple) : shape'.searchable.Perm (unowned tuple :: shape.searchable) := by
  cases hstep with
  | room hroom => exact put_perm h tuple
  | @grow entries _ _ hfull =>
      have hentries : LeafEntries entries := h
      have hapart : ∀ a b, entries[63]? = some a → entries[64]? = some b → a.key ≠ b.key := by
        rcases hroomy with hlt | hapart
        · omega
        · exact hapart
      have hlower : (lowerHalf entries tuple).filter (fun entry => entry.key < middleKey entries) =
          lowerHalf entries tuple := by
        apply List.filter_eq_self.mpr
        intro entry hentry
        simpa using lowerHalf_lt_middleKey hentries hfull hapart hentry
      have hupper : (upperHalf entries tuple).filter (fun entry => middleKey entries ≤ entry.key) =
          upperHalf entries tuple := by
        apply List.filter_eq_self.mpr
        intro entry hentry
        simpa using middleKey_le_upperHalf hentries hfull hentry
      simp only [searchable, hlower, hupper]
      exact halves_perm hentries tuple
  | leftRoom hkey hroom =>
      obtain ⟨hlefts, -⟩ := h
      exact (filter_put_perm hlefts (by exact decide_eq_true hkey)).append_right _
  | leftSplit hkey hfull =>
      simp only [Roomy, leafFor, if_neg (not_le.mpr hkey), hfull] at hroomy
      omega
  | @rightRoom separator _ _ _ rights hkey hroom =>
      obtain ⟨-, hrights, -⟩ := h
      have hperm : ((put rights tuple).filter fun entry => separator ≤ entry.key).Perm
          (unowned tuple :: rights.filter fun entry => separator ≤ entry.key) :=
        filter_put_perm hrights (by exact decide_eq_true hkey)
      exact (hperm.append_left _).trans List.perm_middle
  | rightSplit hkey hfull =>
      simp only [Roomy, leafFor, if_pos hkey, hfull] at hroomy
      omega

/-- An insertion that splits a leaf below the root, or through equal keys,
leaves no more to be found than there was. -/
theorem Step.searchable_loses (hstep : Step tuple shape shape') (h : shape.WellFormed)
    (hcramped : ¬shape.Roomy tuple) : shape'.searchable.length ≤ shape.searchable.length := by
  cases hstep with
  | room hroom => exact absurd (Or.inl hroom) hcramped
  | @grow entries _ _ hfull =>
      have hentries : LeafEntries entries := h
      simp only [Roomy, not_or, not_forall, not_not] at hcramped
      obtain ⟨-, a, b, ha, hb, hequal⟩ := hcramped
      have hmiddle : middleKey entries = b.key := by
        simp [middleKey, List.head?_drop, hb]
      have hmem : a ∈ lowerHalf entries tuple := by
        have htake : a ∈ entries.take 64 :=
          List.mem_iff_getElem?.mpr ⟨63, by rw [List.getElem?_take, if_pos (by decide), ha]⟩
        unfold lowerHalf
        split
        · exact (put_perm (hentries.take 64) tuple).symm.subset (List.mem_cons_of_mem _ htake)
        · exact htake
      have hlower : ((lowerHalf entries tuple).filter
          (fun entry => entry.key < middleKey entries)).length <
            (lowerHalf entries tuple).length := by
        apply List.length_filter_lt_length_iff_exists.mpr
        refine ⟨a, hmem, ?_⟩
        simp [hmiddle, hequal]
      have hupper := List.length_filter_le (fun entry : IndexTuple => middleKey entries ≤ entry.key)
        (upperHalf entries tuple)
      have hboth := (halves_perm hentries tuple).length_eq
      simp only [List.length_append, List.length_cons] at hboth
      simp only [searchable, List.length_append]
      omega
  | @leftRoom separator _ _ _ _ hkey hroom =>
      simp only [Roomy, leafFor, if_neg (not_le.mpr hkey)] at hcramped
      exact absurd hroom hcramped
  | @leftSplit separator _ lefts _ _ _ hkey hfull =>
      obtain ⟨hlefts, -⟩ := h
      simp only [searchable, List.length_append]
      apply Nat.add_le_add_right
      conv_rhs => rw [← List.take_append_drop 64 lefts]
      rw [List.filter_append, List.length_append]
      unfold upperHalf
      split
      · exact Nat.le_add_left _ _
      · rename_i hle
        have hall : (lefts.take 64).filter (fun entry => entry.key < separator) =
            lefts.take 64 := by
          apply List.filter_eq_self.mpr
          intro entry hentry
          have hmiddle := take_le_middleKey hlefts hfull hentry
          simpa using lt_of_le_of_lt (le_trans hmiddle (not_lt.mp hle)) hkey
        have hput : ((put (lefts.drop 64) tuple).filter fun entry => entry.key < separator).Perm
            (unowned tuple :: (lefts.drop 64).filter fun entry => entry.key < separator) :=
          filter_put_perm (hlefts.drop 64) (by exact decide_eq_true hkey)
        rw [hall, hput.length_eq, List.length_cons, List.length_take]
        omega
  | @rightRoom separator _ _ _ _ hkey hroom =>
      simp only [Roomy, leafFor, if_pos hkey] at hcramped
      exact absurd hroom hcramped
  | @rightSplit separator _ _ _ rights _ hkey hfull =>
      obtain ⟨-, hrights, hle, -⟩ := h
      have hall : rights.filter (fun entry => separator ≤ entry.key) = rights := by
        apply List.filter_eq_self.mpr
        intro entry hentry
        simpa using hle entry hentry
      have hupper : (upperHalf rights tuple).length ≤ 65 := upperHalf_length_le hrights hfull
      have hfilter := List.length_filter_le (fun entry : IndexTuple => separator ≤ entry.key)
        (upperHalf rights tuple)
      simp only [searchable, List.length_append, hall]
      omega

theorem Step.searchable_length_le (hstep : Step tuple shape shape') (h : shape.WellFormed) :
    shape'.searchable.length ≤ shape.searchable.length + 1 := by
  by_cases hroomy : shape.Roomy tuple
  · exact (hstep.searchable_perm h hroomy).length_eq.le
  · exact Nat.le_succ_of_le (hstep.searchable_loses h hroomy)

/-- All entries a search finds under one key come from one leaf. -/
theorem WellFormed.searchable_key_le (h : shape.WellFormed) (key : Bytes) :
    (shape.searchable.filter fun entry => entry.key = key).length ≤ 128 := by
  cases shape with
  | single entries => exact le_trans (List.length_filter_le _ _) (LeafEntries.count h)
  | fork separator left lefts right rights =>
      obtain ⟨hlefts, hrights, -⟩ := h
      simp only [searchable, List.filter_append, List.length_append, List.filter_filter]
      by_cases hle : separator ≤ key
      · have hnone : lefts.filter (fun entry =>
            decide (entry.key = key) && decide (entry.key < separator)) = [] := by
          apply List.filter_eq_nil_iff.mpr
          rintro entry - hboth
          simp only [Bool.and_eq_true, decide_eq_true_eq] at hboth
          exact absurd hle (not_le.mpr (hboth.1 ▸ hboth.2))
        rw [hnone, List.length_nil, Nat.zero_add]
        exact le_trans (List.length_filter_le _ _) hrights.count
      · have hnone : rights.filter (fun entry =>
            decide (entry.key = key) && decide (separator ≤ entry.key)) = [] := by
          apply List.filter_eq_nil_iff.mpr
          rintro entry - hboth
          simp only [Bool.and_eq_true, decide_eq_true_eq] at hboth
          exact hle (hboth.1 ▸ hboth.2)
        rw [hnone, List.length_nil, Nat.add_zero]
        exact le_trans (List.length_filter_le _ _) hlefts.count

end Steps

end Shape

end PostgressRs.Btree.TreeShape
