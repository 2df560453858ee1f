import Mathlib.Data.List.SplitBy
import Mathlib.Data.List.TakeWhile
import PostgressRs.Lib.ByteBuffer

/-!
Three ways past duplicate keys (`src/btree/scan.rs`): a scan that returns the
last entry of a run, a copy that keeps the first one, and a jump to the start of
the next run.
-/

namespace PostgressRs.Btree.SkipScan

open PostgressRs.Lib.ByteBuffer

/-- An index entry: its key, and the heap page and slot it points to. -/
abbrev Entry : Type := Bytes × UInt32 × UInt16

/-- `while position < entries.len() - 1`, on a list that is not empty: on to the
next position as long as the key there is the given one. -/
def skipRun (entries : List Entry) (key : Bytes) (position : Nat) : Nat :=
  if _ : position < entries.length - 1 then
    if entries[position + 1].1 = key then skipRun entries key (position + 1) else position
  else position
termination_by entries.length - position

structure SkipScanIterator where
  entries : List Entry
  position : Nat
  skipDuplicates : Bool

namespace SkipScanIterator

def new (entries : List Entry) (skipDuplicates : Bool) : SkipScanIterator :=
  ⟨entries, 0, skipDuplicates⟩

/-- The entry returned and the iterator left behind. -/
def nextDistinct (self : SkipScanIterator) : Option (Option Entry × SkipScanIterator) :=
  if self.entries.length ≤ self.position then some (none, self)
  else do
    let current ← self.entries[self.position]?
    let position :=
      if self.skipDuplicates then skipRun self.entries current.1 self.position else self.position
    let result ← self.entries[position]?
    pure (some result, { self with position := position + 1 })

end SkipScanIterator

structure DeduplicateResult where
  entries : List Entry
  duplicatesRemoved : Nat

/-- The inner loop of `deduplicate_entries`: the index it stops at and the count
of duplicates so far. -/
def removeRun (entries : List Entry) (key : Bytes) (i removed : Nat) : Nat × Nat :=
  if _ : i < entries.length - 1 then
    if entries[i + 1].1 = key then removeRun entries key (i + 1) (removed + 1) else (i, removed)
  else (i, removed)
termination_by entries.length - i

theorem le_skipRun (entries : List Entry) (key : Bytes) (position : Nat) :
    position ≤ skipRun entries key position := by
  fun_induction skipRun entries key position with
  | case1 position _ _ ih => exact (Nat.le_succ _).trans ih
  | case2 => exact Nat.le_refl _
  | case3 => exact Nat.le_refl _

theorem removeRun_eq (entries : List Entry) (key : Bytes) (i removed : Nat) :
    removeRun entries key i removed =
      (skipRun entries key i, removed + (skipRun entries key i - i)) := by
  fun_induction removeRun entries key i removed with
  | case1 i removed hlt hkey ih =>
      have hle := le_skipRun entries key (i + 1)
      have hskip : skipRun entries key i = skipRun entries key (i + 1) := by
        conv_lhs => rw [skipRun, dif_pos hlt, if_pos hkey]
      rw [ih, hskip, Prod.mk.injEq]
      exact ⟨rfl, by omega⟩
  | case2 i removed hlt hkey =>
      rw [skipRun, dif_pos hlt, if_neg hkey, Nat.sub_self, Nat.add_zero]
  | case3 i removed hlt =>
      rw [skipRun, dif_neg hlt, Nat.sub_self, Nat.add_zero]

/-- The outer loop of `deduplicate_entries`. -/
def deduplicateFrom (entries : List Entry) (i removed : Nat) (result : List Entry) :
    DeduplicateResult :=
  if _ : i < entries.length then
    let stop := removeRun entries entries[i].1 i removed
    deduplicateFrom entries (stop.1 + 1) stop.2 (result ++ [entries[i]])
  else ⟨result, removed⟩
termination_by entries.length - i
decreasing_by
  have hle := le_skipRun entries entries[i].1 i
  rw [removeRun_eq]
  omega

def deduplicateEntries (entries : List Entry) : DeduplicateResult :=
  if entries = [] then ⟨[], 0⟩ else deduplicateFrom entries 0 0 []

/-- The loop of `skip_to_next_key`. -/
def skipWhile (entries : List Entry) (key : Bytes) (pos : Nat) : Nat :=
  if _ : pos < entries.length then
    if entries[pos].1 = key then skipWhile entries key (pos + 1) else pos
  else pos
termination_by entries.length - pos

def skipToNextKey (entries : List Entry) (currentPos : Nat) : Nat :=
  if _ : currentPos < entries.length then
    skipWhile entries entries[currentPos].1 (currentPos + 1)
  else entries.length

section Runs

variable {α : Type} [DecidableEq α]

/-- One element for each maximal run of equal ones. -/
def onePerRun (l : List α) : List α := (l.splitBy fun a b => a = b).filterMap List.head?

theorem splitBy_cons (a : α) (l : List α) :
    (a :: l).splitBy (fun a b => a = b) =
      (a :: l.takeWhile fun b => b = a) ::
        (l.dropWhile fun b => b = a).splitBy fun a b => a = b := by
  have hrun : ∀ b ∈ a :: l.takeWhile (fun b => b = a), b = a := by
    intro b hb
    rcases List.mem_cons.mp hb with rfl | hb
    · rfl
    · have hsame := List.mem_takeWhile_imp hb
      exact of_decide_eq_true hsame
  have hchain : (a :: l.takeWhile fun b => b = a).IsChain fun b c => decide (b = c) = true := by
    rw [List.eq_replicate_of_mem hrun]
    exact List.isChain_replicate_of_rel _ (decide_eq_true rfl)
  -- the run ends where the key changes
  have hbreak : ∀ b ∈ (a :: l.takeWhile fun b => b = a).getLast?,
      ∀ c ∈ (l.dropWhile fun b => b = a).head?, decide (b = c) = false := by
    intro b hb c hc
    obtain rfl := hrun b (List.mem_of_mem_getLast? hb)
    have hne := List.ne_nil_of_mem (List.mem_of_mem_head? hc)
    have hhead := List.head_dropWhile_not (fun c => decide (c = b)) hne
    rw [List.head_of_mem_head? hc] at hhead
    exact decide_eq_false fun h => of_decide_eq_false hhead h.symm
  have happ : a :: l = (a :: l.takeWhile fun b => b = a) ++ l.dropWhile fun b => b = a := by
    rw [List.cons_append, List.takeWhile_append_dropWhile]
  conv_lhs => rw [happ]
  rw [List.splitBy_append hbreak, List.splitBy_of_isChain (List.cons_ne_nil _ _) hchain,
    List.singleton_append]

theorem onePerRun_cons (a : α) (l : List α) :
    onePerRun (a :: l) = a :: onePerRun (l.dropWhile fun b => b = a) := by
  rw [onePerRun, splitBy_cons, List.filterMap_cons_some List.head?_cons, onePerRun]

end Runs

def hasKey (key : Bytes) (entry : Entry) : Bool := entry.1 = key

/-- One key for the run of the first entry, and those of what is behind the run. -/
theorem onePerRun_keys_cons (entry : Entry) (entries : List Entry) :
    onePerRun ((entry :: entries).map Prod.fst) =
      entry.1 :: onePerRun ((entries.dropWhile (hasKey entry.1)).map Prod.fst) := by
  rw [List.map_cons, onePerRun_cons, List.dropWhile_map]
  rfl

section RunEnds

variable (entries : List Entry) (key : Bytes) (position : Nat)

theorem skipRun_eq :
    skipRun entries key position =
      position + ((entries.drop (position + 1)).takeWhile (hasKey key)).length := by
  fun_induction skipRun entries key position with
  | case1 position hlt hkey ih =>
      have hnext : position + 1 < entries.length := by omega
      have hhas : hasKey key entries[position + 1] = true := decide_eq_true hkey
      rw [ih, List.drop_eq_getElem_cons hnext, List.takeWhile_cons_of_pos hhas, List.length_cons]
      omega
  | case2 position hlt hkey =>
      have hnext : position + 1 < entries.length := by omega
      have hhas : ¬ hasKey key entries[position + 1] = true := mt of_decide_eq_true hkey
      rw [List.drop_eq_getElem_cons hnext, List.takeWhile_cons_of_neg hhas, List.length_nil,
        Nat.add_zero]
  | case3 position hlt =>
      rw [List.drop_eq_nil_of_le (by omega), List.takeWhile_nil, List.length_nil, Nat.add_zero]

/-- Behind the run come the entries from the first other key on. -/
theorem drop_skipRun :
    entries.drop (skipRun entries key position + 1) =
      (entries.drop (position + 1)).dropWhile (hasKey key) := by
  have hsum : skipRun entries key position + 1 =
      position + 1 + ((entries.drop (position + 1)).takeWhile (hasKey key)).length := by
    rw [skipRun_eq]
    omega
  have hdrop : ((entries.drop (position + 1)).takeWhile (hasKey key) ++
      (entries.drop (position + 1)).dropWhile (hasKey key)).drop
        ((entries.drop (position + 1)).takeWhile (hasKey key)).length =
      (entries.drop (position + 1)).dropWhile (hasKey key) := List.drop_left
  rw [List.takeWhile_append_dropWhile] at hdrop
  rw [hsum, ← List.drop_drop, hdrop]

variable {entries key position}

theorem skipRun_lt (h : position < entries.length) :
    skipRun entries key position < entries.length := by
  fun_induction skipRun entries key position with
  | case1 _ hlt _ ih => exact ih (by omega)
  | case2 => exact h
  | case3 => exact h

/-- The run ends at an entry with its key. -/
theorem getElem?_skipRun {entry : Entry} (h : entries[position]? = some entry)
    (hkey : entry.1 = key) :
    ∃ last, entries[skipRun entries key position]? = some last ∧ last.1 = key := by
  fun_induction skipRun entries key position generalizing entry with
  | case1 position hlt hnext ih => exact ih (List.getElem?_eq_getElem (by omega)) hnext
  | case2 => exact ⟨entry, h, hkey⟩
  | case3 => exact ⟨entry, h, hkey⟩

/-- The loop of `skip_to_next_key` stops one further. -/
theorem skipWhile_succ (h : position < entries.length) :
    skipWhile entries key (position + 1) = skipRun entries key position + 1 := by
  fun_induction skipRun entries key position with
  | case1 position hlt hkey ih =>
      have hnext : position + 1 < entries.length := by omega
      rw [skipWhile, dif_pos hnext, if_pos hkey, ih hnext]
  | case2 position hlt hkey =>
      have hnext : position + 1 < entries.length := by omega
      rw [skipWhile, dif_pos hnext, if_neg hkey]
  | case3 position hlt =>
      have hend : ¬ position + 1 < entries.length := by omega
      rw [skipWhile, dif_neg hend]

end RunEnds

theorem lt_skipToNextKey {entries : List Entry} {pos : Nat} (h : pos < entries.length) :
    pos < skipToNextKey entries pos := by
  rw [skipToNextKey, dif_pos h, skipWhile_succ h]
  exact Nat.lt_succ_of_le (le_skipRun _ _ _)

/-- The keys at the positions that iterating `skip_to_next_key` visits, from `pos` on. -/
def keysVisited (entries : List Entry) (pos : Nat) : List Bytes :=
  if h : pos < entries.length then
    entries[pos].1 :: keysVisited entries (skipToNextKey entries pos)
  else []
termination_by entries.length - pos
decreasing_by
  have hlt := lt_skipToNextKey h
  omega

/-- Calling `next_distinct` until it returns nothing returns the entries of the list. -/
inductive Returns : SkipScanIterator → List Entry → Prop
  | done {it it' : SkipScanIterator} : it.nextDistinct = some (none, it') → Returns it []
  | next {it it' : SkipScanIterator} {entry : Entry} {entries : List Entry} :
      it.nextDistinct = some (some entry, it') → Returns it' entries →
      Returns it (entry :: entries)

/-- The entries from `pos` on are one run and what is behind it. -/
theorem onePerRun_drop {entries : List Entry} {pos : Nat} (h : pos < entries.length) :
    onePerRun ((entries.drop pos).map Prod.fst) =
      entries[pos].1 ::
        onePerRun ((entries.drop (skipRun entries entries[pos].1 pos + 1)).map Prod.fst) := by
  rw [List.drop_eq_getElem_cons h, onePerRun_keys_cons, drop_skipRun]

theorem keysVisited_eq (entries : List Entry) (pos : Nat) :
    keysVisited entries pos = onePerRun ((entries.drop pos).map Prod.fst) := by
  fun_induction keysVisited entries pos with
  | case1 pos h ih =>
      rw [ih, onePerRun_drop h, skipToNextKey, dif_pos h, skipWhile_succ h]
  | case2 pos h =>
      rw [List.drop_eq_nil_of_le (Nat.le_of_not_lt h)]
      rfl

theorem deduplicateFrom_entries (entries : List Entry) (i removed : Nat) (result : List Entry) :
    (deduplicateFrom entries i removed result).entries.map Prod.fst =
      result.map Prod.fst ++ onePerRun ((entries.drop i).map Prod.fst) := by
  fun_induction deduplicateFrom entries i removed result with
  | case1 i removed result h stop ih =>
      rw [ih, onePerRun_drop h, List.map_append, List.append_assoc]
      simp only [stop, removeRun_eq, List.map_cons, List.map_nil, List.singleton_append]
  | case2 i removed result h =>
      rw [List.drop_eq_nil_of_le (Nat.le_of_not_lt h)]
      exact (List.append_nil _).symm

/-- Every entry passed over is kept or counted. -/
theorem deduplicateFrom_count {entries : List Entry} {i removed : Nat} {result : List Entry}
    (hle : i ≤ entries.length) (hcount : removed + result.length = i) :
    (deduplicateFrom entries i removed result).duplicatesRemoved +
      (deduplicateFrom entries i removed result).entries.length = entries.length := by
  fun_induction deduplicateFrom entries i removed result with
  | case1 i removed result h stop ih =>
      have hstop := removeRun_eq entries entries[i].1 i removed
      have hlt : skipRun entries entries[i].1 i < entries.length := skipRun_lt h
      have hge := le_skipRun entries entries[i].1 i
      apply ih
      · simp only [stop, hstop]
        exact hlt
      · simp only [stop, hstop, List.length_append, List.length_singleton]
        omega
  | case2 i removed result h =>
      change removed + result.length = entries.length
      omega

/-- One call returns the last entry of the run at the position and stops behind it. -/
theorem nextDistinct_spec {entries : List Entry} {pos : Nat} (h : pos < entries.length) :
    ∃ last, last.1 = entries[pos].1 ∧
      SkipScanIterator.nextDistinct ⟨entries, pos, true⟩ =
        some (some last, ⟨entries, skipRun entries entries[pos].1 pos + 1, true⟩) := by
  have hcurrent : entries[pos]? = some entries[pos] := List.getElem?_eq_getElem h
  obtain ⟨last, hlast, hkey⟩ := getElem?_skipRun hcurrent rfl
  refine ⟨last, hkey, ?_⟩
  rw [SkipScanIterator.nextDistinct, if_neg (Nat.not_le.mpr h)]
  simp only [hcurrent, Option.bind_eq_bind, Option.bind_some, if_true, hlast]
  rfl

theorem exists_returns (entries : List Entry) (pos : Nat) :
    ∃ returned, Returns ⟨entries, pos, true⟩ returned ∧
      returned.map Prod.fst = onePerRun ((entries.drop pos).map Prod.fst) := by
  by_cases h : pos < entries.length
  · obtain ⟨last, hkey, hnext⟩ := nextDistinct_spec h
    obtain ⟨returned, hreturns, hkeys⟩ :=
      exists_returns entries (skipRun entries entries[pos].1 pos + 1)
    refine ⟨last :: returned, .next hnext hreturns, ?_⟩
    rw [List.map_cons, hkey, hkeys, onePerRun_drop h]
  · have hend := Nat.le_of_not_lt h
    have hdone : SkipScanIterator.nextDistinct ⟨entries, pos, true⟩ =
        some (none, ⟨entries, pos, true⟩) := if_pos hend
    refine ⟨[], .done hdone, ?_⟩
    rw [List.drop_eq_nil_of_le hend]
    rfl
termination_by entries.length - pos
decreasing_by
  have hle := le_skipRun entries entries[pos].1 pos
  omega

/-- The scan, the copy and the jumps give the same keys, one for each run, and
the copy counts every entry it leaves out. -/
theorem skipping_agrees (entries : List Entry) :
    (∃ returned, Returns (.new entries true) returned ∧
      returned.map Prod.fst = onePerRun (entries.map Prod.fst)) ∧
    (deduplicateEntries entries).entries.map Prod.fst = onePerRun (entries.map Prod.fst) ∧
    keysVisited entries 0 = onePerRun (entries.map Prod.fst) ∧
    (deduplicateEntries entries).duplicatesRemoved + (deduplicateEntries entries).entries.length =
      entries.length := by
  have hdedup : deduplicateEntries entries = deduplicateFrom entries 0 0 [] := by
    unfold deduplicateEntries
    split
    · rename_i hnil
      subst hnil
      simp [deduplicateFrom]
    · rfl
  refine ⟨exists_returns entries 0, ?_, keysVisited_eq entries 0, ?_⟩
  · rw [hdedup]
    exact deduplicateFrom_entries entries 0 0 []
  · rw [hdedup]
    exact deduplicateFrom_count (Nat.zero_le _) rfl

end PostgressRs.Btree.SkipScan
