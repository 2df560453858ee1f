import Mathlib.Data.List.Induction
import PostgressRs.Btree.TreeSteps
import PostgressRs.Executor.IndexAccess

/-!
An index of one page, as the executor's `btree_insert` keeps it: entries that
find no room on the page are dropped.
-/

namespace PostgressRs.Btree.SinglePage

open PostgressRs.Btree.IndexPage
open PostgressRs.Btree.PageCodec
open PostgressRs.Btree.TreeAccess
open PostgressRs.Btree.TreeShape
open PostgressRs.Btree.TreeSteps
open PostgressRs.Executor.IndexAccess
open PostgressRs.Lib.ByteBuffer
open PostgressRs.Lib.Procedure
open PostgressRs.Lib.SortedSearch
open PostgressRs.Storage.PageStore
open PostgressRs.Types

section Runs

variable {σ : Type} [StorageTrait σ]

/-- A sequence of insertions. -/
def insertEach : List BTreeInsert → Proc (IndexStore σ) Unit
  | [] => pure ()
  | op :: ops => do
      btreeInsert op 8192
      insertEach ops

/-- A scan for any key returns the heap pointers that were inserted under it. -/
def ScanExact (s : IndexStore σ) (rootPage : PageId) (ops : List BTreeInsert) : Prop :=
  ∀ fuel key, ∃ hits, btreeScan (fuel + 1) ⟨key⟩ rootPage s = .ok hits s ∧
    (hits.map Prod.snd).Perm
      ((ops.filter fun op => op.key = key).map fun op => (⟨op.heapPage⟩, op.heapOffset))

/-- The call fails and leaves the page as it was, or all that was inserted so
far is found afterwards. -/
def CallExact (s : IndexStore σ) (rootPage : PageId) (before : List BTreeInsert)
    (op : BTreeInsert) : Prop :=
  (∃ e s', btreeInsert op 8192 s = .err e s' ∧
      readPage s'.storage rootPage = readPage s.storage rootPage) ∨
    ∃ s', btreeInsert op 8192 s = .ok () s' ∧ ScanExact s' rootPage (before ++ [op])

/-- The bytes the insertions need on the page. -/
def entryBytes (ops : List BTreeInsert) : Nat :=
  (ops.map fun op => op.key.length + 10).sum

/-- What the page holds after insertions that all found room. -/
structure Holds (s : IndexStore σ) (rootPage : PageId) (ops : List BTreeInsert)
    (entries : List IndexTuple) : Prop where
  page : LeafAt s.storage rootPage entries
  sorted : Sorted entries
  perm : entries.Perm (ops.map BTreeInsert.tuple)

end Runs

theorem entryBytes_append (ops ops' : List BTreeInsert) :
    entryBytes (ops ++ ops') = entryBytes ops + entryBytes ops' := by
  simp [entryBytes]

theorem encodeEntries_length_of_perm {ops : List BTreeInsert} {entries : List IndexTuple}
    (h : entries.Perm (ops.map BTreeInsert.tuple)) :
    (encodeEntries entries).length = entryBytes ops := by
  rw [encodeEntries_length, entryBytes, (h.map _).sum_nat, List.map_map]
  rfl

theorem length_le_entryBytes (ops : List BTreeInsert) : 10 * ops.length ≤ entryBytes ops := by
  induction ops with
  | nil => exact Nat.zero_le _
  | cons op ops ih =>
      simp only [entryBytes, List.map_cons, List.sum_cons, List.length_cons] at ih ⊢
      omega

section Steps

variable {σ : Type} [StorageTrait σ] {s : IndexStore σ} {rootPage : PageId}
  {ops : List BTreeInsert} {op : BTreeInsert} {entries : List IndexTuple}

theorem btreeScan_leaf (h : LeafAt s.storage rootPage entries) (fuel : Nat) (key : Bytes) :
    btreeScan (fuel + 1) ⟨key⟩ rootPage s =
      .ok ((entries.filter fun entry => entry.key = key).map fun t =>
        (t.key, ⟨t.heapPointer.1⟩, t.heapPointer.2)) s :=
  bind_ok (searchPage_leaf h fuel key)

theorem scanExact_of_perm (h : LeafAt s.storage rootPage entries)
    (hperm : entries.Perm (ops.map BTreeInsert.tuple)) : ScanExact s rootPage ops := by
  intro fuel key
  refine ⟨_, btreeScan_leaf h fuel key, ?_⟩
  have hfound := ((hperm.filter fun entry => entry.key = key).map fun t : IndexTuple =>
    ((⟨t.heapPointer.1⟩, t.heapPointer.2) : PageId × UInt16))
  rw [List.filter_map, List.map_map] at hfound
  rw [List.map_map]
  exact hfound

/-- Exact scans account for every entry. -/
theorem ScanExact.length_eq (hexact : ScanExact s rootPage ops)
    (h : LeafAt s.storage rootPage entries) : entries.length = ops.length := by
  apply length_eq_of_keys IndexTuple.key BTreeInsert.key
  intro key
  obtain ⟨hits, hscan, hperm⟩ := hexact 0 key
  rw [btreeScan_leaf h] at hscan
  cases hscan
  simpa using hperm.length_eq

variable [LawfulStorage σ]

/-- One insertion: the page holds the entries that fit. -/
theorem btreeInsert_leaf (h : LeafAt s.storage rootPage entries)
    (hreadable : ∀ entry ∈ insertByKey IndexTuple.key entries op.tuple, Readable entry)
    (hnumber : (insertByKey IndexTuple.key entries op.tuple).length < 2 ^ 16)
    (hroot : op.rootPage = rootPage) :
    ∃ s', btreeInsert op 8192 s = .ok () s' ∧
      LeafAt s'.storage rootPage
        ((fitting 8128 (insertByKey IndexTuple.key entries op.tuple)).map unowned) := by
  obtain ⟨left, right, hpage⟩ := h
  set page : BTreePage := ⟨.leaf, rootPage, 0, entries, left, right⟩
  have hkeys : ∀ entry ∈ (page.insertSorted op.tuple).keys, Readable entry := hreadable
  obtain ⟨storage, hstore, hat, -⟩ := storePage_fitting (s := s) rootPage 8128 hkeys hnumber
    (by simp [page, BTreePage.insertSorted])
  refine ⟨{ s with storage := storage }, ?_, _, _, hat⟩
  unfold btreeInsert btreeInsertPage
  rw [hroot]
  apply bind_ok (a := rootPage)
  rw [bind_ok (fetchPage_ok hpage), bind_ok hstore]
  rfl

omit [LawfulStorage σ] in
theorem Holds.readable (h : Holds s rootPage ops entries)
    (hops : ∀ op ∈ ops, op.key ≠ [] ∧ op.key.length ≤ 4096)
    (hop : op.key ≠ [] ∧ op.key.length ≤ 4096) :
    ∀ entry ∈ insertByKey IndexTuple.key entries op.tuple, Readable entry := by
  have hreadable : ∀ op : BTreeInsert, op.key ≠ [] ∧ op.key.length ≤ 4096 →
      Readable op.tuple := by
    rintro op ⟨hnonempty, hlength⟩
    exact ⟨hnonempty, lt_of_le_of_lt hlength (by decide)⟩
  intro entry hentry
  rcases List.mem_cons.mp ((insertByKey_perm IndexTuple.key h.sorted op.tuple).subset hentry) with
    rfl | hold
  · exact hreadable op hop
  · obtain ⟨op', hop', rfl⟩ := List.mem_map.mp (h.perm.subset hold)
    exact hreadable op' (hops op' hop')

theorem map_unowned_of_perm (h : entries.Perm (ops.map BTreeInsert.tuple)) :
    entries.map unowned = entries := by
  conv_rhs => rw [← List.map_id entries]
  apply List.map_congr_left
  intro entry hentry
  obtain ⟨op, -, rfl⟩ := List.mem_map.mp (h.subset hentry)
  rfl

/-- One more insertion keeps everything if it still fits, and loses an entry if
it does not. -/
theorem btreeInsert_holds (h : Holds s rootPage ops entries)
    (hops : ∀ op ∈ ops, op.key ≠ [] ∧ op.key.length ≤ 4096)
    (hop : op.key ≠ [] ∧ op.key.length ≤ 4096) (hroot : op.rootPage = rootPage)
    (hfits : entryBytes ops ≤ 8128) :
    ∃ s', btreeInsert op 8192 s = .ok () s' ∧
      (entryBytes (ops ++ [op]) ≤ 8128 → ∃ entries', Holds s' rootPage (ops ++ [op]) entries') ∧
      (8128 < entryBytes (ops ++ [op]) → ¬ScanExact s' rootPage (ops ++ [op])) := by
  have hinsert := insertByKey_perm IndexTuple.key h.sorted op.tuple
  have hperm : (insertByKey IndexTuple.key entries op.tuple).Perm
      ((ops ++ [op]).map BTreeInsert.tuple) := by
    rw [List.map_append]
    exact (hinsert.trans (h.perm.cons _)).trans (List.perm_append_singleton _ _).symm
  have hlen := hperm.length_eq
  rw [List.length_map, List.length_append, List.length_singleton] at hlen
  have hmany := length_le_entryBytes ops
  obtain ⟨s', hok, hleaf⟩ := btreeInsert_leaf h.page (h.readable hops hop) (by omega) hroot
  have hbytes := encodeEntries_length_of_perm hperm
  refine ⟨s', hok, ?_, ?_⟩
  · intro hroom
    rw [fitting_eq_iff.mpr (by omega), map_unowned_of_perm hperm] at hleaf
    exact ⟨_, hleaf, insertByKey_sorted IndexTuple.key h.sorted op.tuple, hperm⟩
  · intro hcramped hexact
    have hall := hexact.length_eq hleaf
    rw [List.length_map, List.length_append, List.length_singleton, ← hlen] at hall
    have hkept := (fitting_sublist 8128 _).eq_of_length hall
    rw [fitting_eq_iff] at hkept
    omega

omit [LawfulStorage σ] in
theorem insertEach_append {s₁ : IndexStore σ} (h : insertEach ops s = .ok () s₁)
    (ops' : List BTreeInsert) : insertEach (ops ++ ops') s = insertEach ops' s₁ := by
  induction ops generalizing s with
  | nil =>
      cases h
      rfl
  | cons op ops ih =>
      obtain ⟨_, t, hop, hrest⟩ := bind_eq_ok.mp h
      rw [List.cons_append, insertEach, bind_ok hop]
      exact ih hrest

omit [LawfulStorage σ] in
theorem holds_empty (hzero : readPage s.storage rootPage = .ok zeroPage) :
    Holds s rootPage [] [] :=
  ⟨⟨none, none, pageAt_zero hzero⟩, List.Pairwise.nil, List.Perm.refl _⟩

/-- Insertions that fit all arrive. -/
theorem insertEach_holds
    (hops : ∀ op ∈ ops, op.rootPage = rootPage ∧ op.key ≠ [] ∧ op.key.length ≤ 4096)
    (hzero : readPage s.storage rootPage = .ok zeroPage) (hfits : entryBytes ops ≤ 8128) :
    ∃ s' entries, insertEach ops s = .ok () s' ∧ Holds s' rootPage ops entries := by
  induction ops using List.reverseRecOn with
  | nil => exact ⟨s, [], rfl, holds_empty hzero⟩
  | append_singleton ops op ih =>
      have hbefore : ∀ op ∈ ops, op.rootPage = rootPage ∧ op.key ≠ [] ∧ op.key.length ≤ 4096 :=
        fun op hop => hops op (List.mem_append_left _ hop)
      have hlast := hops op (List.mem_append_right _ List.mem_cons_self)
      have hfits' : entryBytes ops ≤ 8128 := by
        rw [entryBytes_append] at hfits
        omega
      obtain ⟨s₁, entries, hrun, hholds⟩ := ih hbefore hfits'
      obtain ⟨s', hok, hkeeps, -⟩ :=
        btreeInsert_holds hholds (fun op hop => (hbefore op hop).2) hlast.2 hlast.1 hfits'
      obtain ⟨entries', hholds'⟩ := hkeeps hfits
      refine ⟨s', entries', ?_, hholds'⟩
      rw [insertEach_append hrun, insertEach, bind_ok hok]
      rfl

end Steps

/-- The first insertion that does not fit any more. -/
theorem exists_overflow {ops : List BTreeInsert} (h : 8128 < entryBytes ops) :
    ∃ before op after, ops = before ++ op :: after ∧ entryBytes before ≤ 8128 ∧
      8128 < entryBytes (before ++ [op]) := by
  induction ops using List.reverseRecOn with
  | nil => exact absurd h (by simp [entryBytes])
  | append_singleton ops op ih =>
      by_cases hfits : entryBytes ops ≤ 8128
      · exact ⟨ops, op, [], rfl, hfits, h⟩
      · obtain ⟨before, op', after, rfl, hbefore, hover⟩ := ih (not_le.mp hfits)
        exact ⟨before, op', after ++ [op], by simp, hbefore, hover⟩

/-- Every call of a sequence does its part exactly if the entries of all of them
fit on the page together. -/
theorem single_page_exact_iff {σ : Type} [StorageTrait σ] [LawfulStorage σ] {s : IndexStore σ}
    {rootPage : PageId} {ops : List BTreeInsert}
    (hops : ∀ op ∈ ops, op.rootPage = rootPage ∧ op.key ≠ [] ∧ op.key.length ≤ 4096)
    (hzero : readPage s.storage rootPage = .ok zeroPage) :
    (∀ before op after, ops = before ++ op :: after →
        ∃ s₁, insertEach before s = .ok () s₁ ∧ CallExact s₁ rootPage before op) ↔
      entryBytes ops ≤ 8128 := by
  have hstep : ∀ before op after, ops = before ++ op :: after → entryBytes before ≤ 8128 →
      ∃ s₁ s₂, insertEach before s = .ok () s₁ ∧ btreeInsert op 8192 s₁ = .ok () s₂ ∧
        (ScanExact s₂ rootPage (before ++ [op]) ↔ entryBytes (before ++ [op]) ≤ 8128) := by
    rintro before op after rfl hfits
    have hbefore : ∀ op ∈ before, op.rootPage = rootPage ∧ op.key ≠ [] ∧ op.key.length ≤ 4096 :=
      fun op hop => hops op (List.mem_append_left _ hop)
    have hlast := hops op (List.mem_append_right _ List.mem_cons_self)
    obtain ⟨s₁, entries, hrun, hholds⟩ := insertEach_holds hbefore hzero hfits
    obtain ⟨s₂, hok, hkeeps, hloses⟩ :=
      btreeInsert_holds hholds (fun op hop => (hbefore op hop).2) hlast.2 hlast.1 hfits
    refine ⟨s₁, s₂, hrun, hok, ?_, ?_⟩
    · intro hexact
      exact not_lt.mp fun hcramped => hloses hcramped hexact
    · intro hroom
      obtain ⟨entries', hholds'⟩ := hkeeps hroom
      exact scanExact_of_perm hholds'.page hholds'.perm
  constructor
  · intro hcalls
    by_contra hover
    obtain ⟨before, op, after, heq, hfits, hcramped⟩ := exists_overflow (not_le.mp hover)
    obtain ⟨s₁, s₂, hrun, hok, hexact⟩ := hstep before op after heq hfits
    obtain ⟨s₁', hrun', hcall⟩ := hcalls before op after heq
    rw [hrun] at hrun'
    cases hrun'
    rcases hcall with ⟨e, s', herr, -⟩ | ⟨s', hok', hexact'⟩
    · rw [hok] at herr
      cases herr
    · rw [hok] at hok'
      cases hok'
      have hroom := hexact.mp hexact'
      omega
  · intro hfits before op after heq
    have hbytes : entryBytes ops = entryBytes (before ++ [op]) + entryBytes after := by
      rw [← entryBytes_append, heq, List.append_assoc, List.singleton_append]
    have hbefore := entryBytes_append before [op]
    obtain ⟨s₁, s₂, hrun, hok, hexact⟩ := hstep before op after heq (by omega)
    exact ⟨s₁, hrun, Or.inr ⟨s₂, hok, hexact.mpr (by omega)⟩⟩

/-- An insertion under a key of 4096 bytes. -/
def longInsert (byte : UInt8) : BTreeInsert :=
  ⟨⟨1⟩, List.replicate 4096 byte, 7, 0⟩

theorem longInsert_bytes (bytes : List UInt8) :
    entryBytes (bytes.map longInsert) = 4106 * bytes.length := by
  induction bytes with
  | nil => rfl
  | cons byte bytes ih =>
      rw [List.map_cons, List.length_cons, ← List.singleton_append, entryBytes_append, ih]
      have hone : entryBytes [longInsert byte] = 4106 := by
        simp only [entryBytes, longInsert, List.map_cons, List.map_nil, List.length_replicate]
        rfl
      omega

theorem longInsert_wellFormed (byte : UInt8) :
    (longInsert byte).rootPage = ⟨1⟩ ∧ (longInsert byte).key ≠ [] ∧
      (longInsert byte).key.length ≤ 4096 := by
  have hlen : (longInsert byte).key.length = 4096 := List.length_replicate
  refine ⟨rfl, List.ne_nil_of_length_pos ?_, hlen.le⟩
  rw [hlen]
  decide

/-- Of two keys of 4096 bytes one is lost, although both insertions succeed. -/
theorem second_long_key_lost :
    ∃ s₁ s₂ : IndexStore EphemeralStorage,
      btreeInsert (longInsert 1) 8192 ⟨EphemeralStorage.new, []⟩ = .ok () s₁ ∧
      btreeInsert (longInsert 2) 8192 s₁ = .ok () s₂ ∧
      ¬ScanExact s₂ ⟨1⟩ [longInsert 1, longInsert 2] := by
  have hfirst := longInsert_wellFormed 1
  have hsecond := longInsert_wellFormed 2
  have hone : entryBytes [longInsert 1] = 4106 := longInsert_bytes [1]
  have htwo : entryBytes [longInsert 1, longInsert 2] = 8212 := longInsert_bytes [1, 2]
  obtain ⟨s₁, hok, hkeeps, -⟩ := btreeInsert_holds
    (holds_empty (s := (⟨EphemeralStorage.new, []⟩ : IndexStore EphemeralStorage)) rfl)
    (by simp) hfirst.2 hfirst.1 (by decide)
  obtain ⟨entries, hholds⟩ := hkeeps (by rw [List.nil_append]; omega)
  obtain ⟨s₂, hok₂, -, hloses⟩ := btreeInsert_holds hholds
    (by simpa using hfirst.2) hsecond.2 hsecond.1 (by rw [List.nil_append]; omega)
  refine ⟨s₁, s₂, hok, hok₂, hloses ?_⟩
  rw [List.nil_append, List.singleton_append]
  omega

theorem single_page_exact_iff_oneKey : entryBytes [longInsert 1] = 4106 ∧
    ∀ before op after, [longInsert 1] = before ++ op :: after →
      ∃ s₁, insertEach before (⟨EphemeralStorage.new, []⟩ : IndexStore EphemeralStorage) =
          .ok () s₁ ∧ CallExact s₁ ⟨1⟩ before op := by
  have hone : entryBytes [longInsert 1] = 4106 := longInsert_bytes [1]
  refine ⟨hone, (single_page_exact_iff (by simpa using longInsert_wellFormed 1) rfl).mpr ?_⟩
  omega

end PostgressRs.Btree.SinglePage
