import Mathlib.Data.List.DropRight
import PostgressRs.Lib.Procedure
import PostgressRs.Lib.Transitions
import PostgressRs.Txn.TransactionTable

/-!
Advisory locks (the advisory lock API of `src/transaction/locks.rs`): which of
them can be held together and how often.
-/

namespace PostgressRs.Txn.AdvisoryLocks

open PostgressRs.Lib.Procedure
open PostgressRs.Lib.Transitions
open PostgressRs.Txn.TransactionTable

inductive AdvisoryLockMode where
  | exclusive
  | shared
deriving DecidableEq

/-- `{:?}` of a mode. -/
def AdvisoryLockMode.debug : AdvisoryLockMode → String
  | exclusive => "Exclusive"
  | shared => "Shared"

structure AdvisoryLockEntry where
  holder : TransactionId
  mode : AdvisoryLockMode
deriving DecidableEq

abbrev AdvisoryMap := AList fun _ : Int64 => List AdvisoryLockEntry

/-- `advisory_lock_holders`. -/
def advisoryLockHolders (advisory : AdvisoryMap) (key : Int64) : List AdvisoryLockEntry :=
  (advisory.lookup key).getD []

/-- `advisory.entry(key).or_default()`. -/
def orDefault (advisory : AdvisoryMap) (key : Int64) : AdvisoryMap :=
  match advisory.lookup key with
  | some _ => advisory
  | none => advisory.insert key []

def conflicts : AdvisoryLockMode → AdvisoryLockMode → Bool
  | .exclusive, _ => true
  | .shared, .exclusive => true
  | .shared, .shared => false

def acquireAdvisoryLock (xid : TransactionId) (key : Int64) (mode : AdvisoryLockMode) :
    Proc AdvisoryMap Unit := fun advisory =>
  let entries := advisoryLockHolders advisory key
  if entries.any fun entry => entry.holder ≠ xid ∧ conflicts mode entry.mode then
    .err ("Advisory lock conflict on key " ++ toString key ++ " (mode " ++ mode.debug ++ ")")
      (orDefault advisory key)
  else .ok () (advisory.insert key (entries ++ [⟨xid, mode⟩]))

def tryAcquireAdvisoryLock (xid : TransactionId) (key : Int64) (mode : AdvisoryLockMode) :
    Proc AdvisoryMap Bool := do
  let result ← attempt (acquireAdvisoryLock xid key mode)
  pure result.isOk

def releaseAdvisoryLock (xid : TransactionId) (key : Int64) : Proc AdvisoryMap Bool :=
  fun advisory =>
    match advisory.lookup key with
    | none => .ok false advisory
    | some entries =>
        match entries.findIdx? fun e => e.holder = xid with
        | none => .ok false advisory
        | some pos =>
            let kept := entries.eraseIdx pos
            .ok true (if kept = [] then advisory.erase key else advisory.insert key kept)

/-- The lists lose the entries of the transaction, then empty lists go. -/
def releaseAllAdvisoryLocks (xid : TransactionId) : Proc AdvisoryMap Unit :=
  modify fun advisory =>
    let retained := advisory.keys.foldl (fun retained key => retained.insert key
      ((advisoryLockHolders retained key).filter fun e => e.holder ≠ xid)) advisory
    retained.keys.foldl (fun kept key =>
      if advisoryLockHolders kept key = [] then kept.erase key else kept) retained

section Holders

variable {advisory : AdvisoryMap} {key : Int64} {xid : TransactionId} {mode : AdvisoryLockMode}

theorem holders_insert (advisory : AdvisoryMap) (key : Int64) (entries : List AdvisoryLockEntry) :
    advisoryLockHolders (advisory.insert key entries) =
      Function.update (advisoryLockHolders advisory) key entries := by
  funext key'
  by_cases hkey : key' = key
  · subst hkey
    simp [advisoryLockHolders]
  · simp [advisoryLockHolders, AList.lookup_insert_ne hkey, Function.update_of_ne hkey]

theorem holders_erase (advisory : AdvisoryMap) (key : Int64) :
    advisoryLockHolders (advisory.erase key) =
      Function.update (advisoryLockHolders advisory) key [] := by
  funext key'
  by_cases hkey : key' = key
  · subst hkey
    simp [advisoryLockHolders]
  · simp [advisoryLockHolders, AList.lookup_erase_ne hkey, Function.update_of_ne hkey]

theorem holders_orDefault (advisory : AdvisoryMap) (key : Int64) :
    advisoryLockHolders (orDefault advisory key) = advisoryLockHolders advisory := by
  unfold orDefault
  cases hlookup : advisory.lookup key with
  | some entries => rfl
  | none =>
      rw [holders_insert]
      refine Function.update_eq_self_iff.mpr ?_
      simp [advisoryLockHolders, hlookup]

/-- The lock is free for the transaction. -/
def Free (advisory : AdvisoryMap) (xid : TransactionId) (key : Int64) (mode : AdvisoryLockMode) :
    Prop :=
  ∀ entry ∈ advisoryLockHolders advisory key, entry.holder ≠ xid →
    conflicts mode entry.mode = false

/-- A refused call leaves every list as it was; a granted one is added to the
list of its key. -/
theorem acquireAdvisoryLock_cases (advisory : AdvisoryMap) (xid : TransactionId) (key : Int64)
    (mode : AdvisoryLockMode) :
    (∃ advisory', acquireAdvisoryLock xid key mode advisory = .ok () advisory' ∧
      Free advisory xid key mode ∧
      advisoryLockHolders advisory' = Function.update (advisoryLockHolders advisory) key
        (advisoryLockHolders advisory key ++ [⟨xid, mode⟩])) ∨
    (∃ error advisory', acquireAdvisoryLock xid key mode advisory = .err error advisory' ∧
      advisoryLockHolders advisory' = advisoryLockHolders advisory) := by
  unfold acquireAdvisoryLock
  by_cases hany : ((advisoryLockHolders advisory key).any fun entry =>
      entry.holder ≠ xid ∧ conflicts mode entry.mode) = true
  · refine Or.inr ⟨_, _, if_pos hany, holders_orDefault advisory key⟩
  · refine Or.inl ⟨_, if_neg hany, ?_, holders_insert _ _ _⟩
    intro entry hentry hother
    by_contra hconflict
    refine hany (List.any_eq_true.mpr ⟨entry, hentry, ?_⟩)
    simpa [hother] using hconflict

/-- The entry that `position` finds. -/
theorem exists_split_of_findIdx? {p : AdvisoryLockEntry → Bool} {entries : List AdvisoryLockEntry}
    {pos : Nat} (h : entries.findIdx? p = some pos) :
    ∃ before entry after, entries = before ++ entry :: after ∧
      entries.eraseIdx pos = before ++ after ∧ p entry = true ∧
      ∀ other ∈ before, p other = false := by
  obtain ⟨hpos, hp, hfirst⟩ := List.findIdx?_eq_some_iff_getElem.mp h
  refine ⟨entries.take pos, entries[pos], entries.drop (pos + 1), ?_,
    List.eraseIdx_eq_take_drop_succ _ _, hp, ?_⟩
  · rw [List.getElem_cons_drop, List.take_append_drop]
  · intro other hother
    obtain ⟨i, hi, rfl⟩ := List.mem_take_iff_getElem.mp hother
    simpa using hfirst i (by omega)

theorem releaseAdvisoryLock_cases (advisory : AdvisoryMap) (xid : TransactionId) (key : Int64) :
    (releaseAdvisoryLock xid key advisory = .ok false advisory ∧
      ∀ entry ∈ advisoryLockHolders advisory key, entry.holder ≠ xid) ∨
    (∃ before entry after advisory', releaseAdvisoryLock xid key advisory = .ok true advisory' ∧
      advisoryLockHolders advisory key = before ++ entry :: after ∧
      entry.holder = xid ∧ (∀ other ∈ before, other.holder ≠ xid) ∧
      advisoryLockHolders advisory' =
        Function.update (advisoryLockHolders advisory) key (before ++ after)) := by
  unfold releaseAdvisoryLock
  cases hlookup : advisory.lookup key with
  | none =>
      refine Or.inl ⟨rfl, ?_⟩
      simp [advisoryLockHolders, hlookup]
  | some entries =>
      have hholders : advisoryLockHolders advisory key = entries := by
        simp [advisoryLockHolders, hlookup]
      rw [hholders]
      cases hfind : entries.findIdx? fun e => decide (e.holder = xid) with
      | none =>
          refine Or.inl ⟨by simp only [hfind], ?_⟩
          intro entry hentry
          simpa using List.findIdx?_eq_none_iff.mp hfind entry hentry
      | some pos =>
          obtain ⟨before, entry, after, hsplit, hkept, hentry, hbefore⟩ :=
            exists_split_of_findIdx? hfind
          simp only [hfind]
          refine Or.inr ⟨before, entry, after, _, rfl, hsplit, by simpa using hentry,
            fun other hother => by simpa using hbefore other hother, ?_⟩
          rw [hkept]
          split
          · rename_i hempty
            rw [holders_erase, hempty]
          · exact holders_insert _ _ _

theorem holders_retain (advisory : AdvisoryMap) (xid : TransactionId) (keys : List Int64) :
    ∀ key, advisoryLockHolders (keys.foldl (fun retained key => retained.insert key
        ((advisoryLockHolders retained key).filter fun e => e.holder ≠ xid)) advisory) key =
      if key ∈ keys then (advisoryLockHolders advisory key).filter fun e => e.holder ≠ xid
      else advisoryLockHolders advisory key := by
  induction keys generalizing advisory with
  | nil => simp
  | cons key' keys ih =>
      intro key
      rw [List.foldl_cons, ih, holders_insert]
      by_cases hkey : key = key'
      · subst hkey
        simp [List.filter_filter]
      · simp [hkey]

theorem holders_dropEmpty (advisory : AdvisoryMap) (keys : List Int64) :
    advisoryLockHolders (keys.foldl (fun kept key =>
        if advisoryLockHolders kept key = [] then kept.erase key else kept) advisory) =
      advisoryLockHolders advisory := by
  induction keys generalizing advisory with
  | nil => rfl
  | cons key keys ih =>
      rw [List.foldl_cons, ih]
      split
      · rename_i hempty
        rw [holders_erase]
        exact Function.update_eq_self_iff.mpr hempty.symm
      · rfl

theorem releaseAllAdvisoryLocks_eq (advisory : AdvisoryMap) (xid : TransactionId) :
    ∃ advisory', releaseAllAdvisoryLocks xid advisory = .ok () advisory' ∧
      ∀ key, advisoryLockHolders advisory' key =
        (advisoryLockHolders advisory key).filter fun e => e.holder ≠ xid := by
  refine ⟨_, rfl, ?_⟩
  intro key
  rw [holders_dropEmpty, holders_retain]
  split
  · rfl
  · rename_i hkey
    have hlookup : advisory.lookup key = none :=
      AList.lookup_eq_none.mpr fun hmem => hkey (AList.mem_keys.mp hmem)
    simp [advisoryLockHolders, hlookup]

end Holders

inductive AdvisoryCall where
  | acquire (xid : TransactionId) (key : Int64) (mode : AdvisoryLockMode)
  | tryAcquire (xid : TransactionId) (key : Int64) (mode : AdvisoryLockMode)
  | release (xid : TransactionId) (key : Int64)
  | releaseAll (xid : TransactionId)

/-- The unit value of a call that returns is `true`. -/
def AdvisoryCall.run : AdvisoryCall → Proc AdvisoryMap Bool
  | acquire xid key mode => do
      acquireAdvisoryLock xid key mode
      pure true
  | tryAcquire xid key mode => tryAcquireAdvisoryLock xid key mode
  | release xid key => releaseAdvisoryLock xid key
  | releaseAll xid => do
      releaseAllAdvisoryLocks xid
      pure true

/-- A call and what it returned. -/
structure Answered where
  call : AdvisoryCall
  result : Except String Bool

/-- The call succeeded. -/
def Answered.succeeded (answered : Answered) : Bool :=
  match answered.result with
  | .ok succeeded => succeeded
  | .error _ => false

def AdvisoryStep (advisory : AdvisoryMap) (answered : Answered) (advisory' : AdvisoryMap) : Prop :=
  (answered.call.run advisory).state? = some advisory' ∧
    (answered.call.run advisory).result? = some answered.result

section Effects

/-- What a call did to the lists of entries. -/
inductive Effect where
  | granted (xid : TransactionId) (key : Int64) (mode : AdvisoryLockMode)
  | released (xid : TransactionId) (key : Int64)
  | cleared (xid : TransactionId)
  | unchanged

/-- Told from the call and its success alone. -/
def Answered.effect (answered : Answered) : Effect :=
  match answered.call with
  | .acquire xid key mode => if answered.succeeded then .granted xid key mode else .unchanged
  | .tryAcquire xid key mode => if answered.succeeded then .granted xid key mode else .unchanged
  | .release xid key => if answered.succeeded then .released xid key else .unchanged
  | .releaseAll xid => .cleared xid

def Effected (advisory : AdvisoryMap) (advisory' : AdvisoryMap) : Effect → Prop
  | .granted xid key mode =>
      Free advisory xid key mode ∧ advisoryLockHolders advisory' =
        Function.update (advisoryLockHolders advisory) key
          (advisoryLockHolders advisory key ++ [⟨xid, mode⟩])
  | .released xid key =>
      ∃ before entry after, advisoryLockHolders advisory key = before ++ entry :: after ∧
        entry.holder = xid ∧ (∀ other ∈ before, other.holder ≠ xid) ∧
        advisoryLockHolders advisory' =
          Function.update (advisoryLockHolders advisory) key (before ++ after)
  | .cleared xid =>
      ∀ key, advisoryLockHolders advisory' key =
        (advisoryLockHolders advisory key).filter fun e => e.holder ≠ xid
  | .unchanged => advisoryLockHolders advisory' = advisoryLockHolders advisory

theorem effected_acquire {advisory advisory' : AdvisoryMap} {xid : TransactionId} {key : Int64}
    {mode : AdvisoryLockMode} {result : Except String Bool}
    (h : AdvisoryStep advisory ⟨.acquire xid key mode, result⟩ advisory') :
    Effected advisory advisory' (Answered.effect ⟨.acquire xid key mode, result⟩) := by
  obtain ⟨hstate, hresult⟩ := h
  simp only [AdvisoryCall.run, bind_apply] at hstate hresult
  rcases acquireAdvisoryLock_cases advisory xid key mode with
    ⟨next, heq, hfree, hholders⟩ | ⟨error, next, heq, hholders⟩
  · rw [heq] at hstate hresult
    cases hstate
    cases hresult
    exact ⟨hfree, hholders⟩
  · rw [heq] at hstate hresult
    cases hstate
    cases hresult
    exact hholders

theorem effected_tryAcquire {advisory advisory' : AdvisoryMap} {xid : TransactionId} {key : Int64}
    {mode : AdvisoryLockMode} {result : Except String Bool}
    (h : AdvisoryStep advisory ⟨.tryAcquire xid key mode, result⟩ advisory') :
    Effected advisory advisory' (Answered.effect ⟨.tryAcquire xid key mode, result⟩) := by
  obtain ⟨hstate, hresult⟩ := h
  simp only [AdvisoryCall.run, tryAcquireAdvisoryLock, attempt, bind_apply] at hstate hresult
  rcases acquireAdvisoryLock_cases advisory xid key mode with
    ⟨next, heq, hfree, hholders⟩ | ⟨error, next, heq, hholders⟩
  · rw [heq] at hstate hresult
    cases hstate
    cases hresult
    exact ⟨hfree, hholders⟩
  · rw [heq] at hstate hresult
    cases hstate
    cases hresult
    exact hholders

theorem effected_release {advisory advisory' : AdvisoryMap} {xid : TransactionId} {key : Int64}
    {result : Except String Bool}
    (h : AdvisoryStep advisory ⟨.release xid key, result⟩ advisory') :
    Effected advisory advisory' (Answered.effect ⟨.release xid key, result⟩) := by
  obtain ⟨hstate, hresult⟩ := h
  simp only [AdvisoryCall.run] at hstate hresult
  rcases releaseAdvisoryLock_cases advisory xid key with
    ⟨heq, -⟩ | ⟨before, entry, after, next, heq, hsplit, hentry, hbefore, hholders⟩
  · rw [heq] at hstate hresult
    cases hstate
    cases hresult
    exact rfl
  · rw [heq] at hstate hresult
    cases hstate
    cases hresult
    exact ⟨before, entry, after, hsplit, hentry, hbefore, hholders⟩

theorem effected_releaseAll {advisory advisory' : AdvisoryMap} {xid : TransactionId}
    {result : Except String Bool} (h : AdvisoryStep advisory ⟨.releaseAll xid, result⟩ advisory') :
    Effected advisory advisory' (Answered.effect ⟨.releaseAll xid, result⟩) := by
  obtain ⟨hstate, -⟩ := h
  simp only [AdvisoryCall.run, bind_apply] at hstate
  obtain ⟨next, heq, hholders⟩ := releaseAllAdvisoryLocks_eq advisory xid
  rw [heq] at hstate
  cases hstate
  exact hholders

theorem advisoryStep_effected {advisory advisory' : AdvisoryMap} {answered : Answered}
    (h : AdvisoryStep advisory answered advisory') :
    Effected advisory advisory' answered.effect := by
  obtain ⟨call, result⟩ := answered
  cases call with
  | acquire xid key mode => exact effected_acquire h
  | tryAcquire xid key mode => exact effected_tryAcquire h
  | release xid key => exact effected_release h
  | releaseAll xid => exact effected_releaseAll h

end Effects

section Exclusion

/-- Nobody shares a key with a transaction that holds it exclusively. -/
def Exclusive (advisory : AdvisoryMap) : Prop :=
  ∀ key, ∀ entry ∈ advisoryLockHolders advisory key, entry.mode = .exclusive →
    ∀ other ∈ advisoryLockHolders advisory key, other.holder = entry.holder

theorem exclusive_of_subset {advisory advisory' : AdvisoryMap} (h : Exclusive advisory)
    (hsubset : ∀ key, advisoryLockHolders advisory' key ⊆ advisoryLockHolders advisory key) :
    Exclusive advisory' := by
  intro key entry hentry hmode other hother
  exact h key entry (hsubset key hentry) hmode other (hsubset key hother)

/-- A new entry is checked against the modes of the other transactions in both
directions. -/
theorem conflicts_exclusive (mode : AdvisoryLockMode) :
    conflicts .exclusive mode = true ∧ conflicts mode .exclusive = true := by
  cases mode <;> exact ⟨rfl, rfl⟩

theorem exclusive_granted {advisory advisory' : AdvisoryMap} {xid : TransactionId} {key : Int64}
    {mode : AdvisoryLockMode} (h : Exclusive advisory) (hfree : Free advisory xid key mode)
    (hholders : advisoryLockHolders advisory' = Function.update (advisoryLockHolders advisory) key
      (advisoryLockHolders advisory key ++ [⟨xid, mode⟩])) : Exclusive advisory' := by
  intro key' entry hentry hmode other hother
  rw [hholders] at hentry hother
  by_cases hkey : key' = key
  · subst hkey
    rw [Function.update_self] at hentry hother
    rcases List.mem_append.mp hentry with hentry | hentry <;>
      rcases List.mem_append.mp hother with hother | hother
    · exact h key' entry hentry hmode other hother
    · rw [List.mem_singleton.mp hother]
      by_contra hne
      have hconflict := hfree entry hentry (Ne.symm hne)
      rw [hmode, (conflicts_exclusive mode).2] at hconflict
      cases hconflict
    · rw [List.mem_singleton.mp hentry] at hmode ⊢
      by_contra hne
      have hconflict := hfree other hother hne
      rw [show mode = .exclusive from hmode, (conflicts_exclusive other.mode).1] at hconflict
      cases hconflict
    · rw [List.mem_singleton.mp hentry, List.mem_singleton.mp hother]
  · rw [Function.update_of_ne hkey] at hentry hother
    exact h key' entry hentry hmode other hother

theorem exclusive_effected {advisory advisory' : AdvisoryMap} {effect : Effect}
    (h : Exclusive advisory) (heffect : Effected advisory advisory' effect) :
    Exclusive advisory' := by
  cases effect with
  | granted xid key mode => exact exclusive_granted h heffect.1 heffect.2
  | released xid key =>
      obtain ⟨before, entry, after, hsplit, -, -, hholders⟩ := heffect
      refine exclusive_of_subset h ?_
      intro key'
      rw [hholders]
      by_cases hkey : key' = key
      · subst hkey
        rw [Function.update_self, hsplit]
        exact ((List.sublist_cons_self entry after).append_left before).subset
      · rw [Function.update_of_ne hkey]
        exact List.Subset.refl _
  | cleared xid =>
      refine exclusive_of_subset h ?_
      intro key'
      rw [heffect key']
      exact List.filter_subset_self _
  | unchanged =>
      refine exclusive_of_subset h ?_
      intro key'
      rw [show advisoryLockHolders advisory' = advisoryLockHolders advisory from heffect]
      exact List.Subset.refl _

end Exclusion

section Counts

/-- The entries of a transaction on a key. -/
def entriesOf (advisory : AdvisoryMap) (xid : TransactionId) (key : Int64) :
    List AdvisoryLockEntry :=
  (advisoryLockHolders advisory key).filter fun e => e.holder = xid

/-- A successful acquire of the key by the transaction. -/
def acquires (xid : TransactionId) (key : Int64) (answered : Answered) : Bool :=
  match answered.effect with
  | .granted xid' key' _ => xid' = xid ∧ key' = key
  | _ => false

/-- A successful release of the key by the transaction. -/
def releases (xid : TransactionId) (key : Int64) (answered : Answered) : Bool :=
  match answered.effect with
  | .released xid' key' => xid' = xid ∧ key' = key
  | _ => false

def releasesAll (xid : TransactionId) (answered : Answered) : Bool :=
  match answered.effect with
  | .cleared xid' => xid' = xid
  | _ => false

/-- The calls after the last `release_all_advisory_locks` of the transaction. -/
def sinceReleaseAll (xid : TransactionId) (trace : List (Transition AdvisoryMap Answered)) :
    List Answered :=
  (trace.map Transition.label).rtakeWhile fun answered => !releasesAll xid answered

theorem sinceReleaseAll_concat (xid : TransactionId)
    (trace : List (Transition AdvisoryMap Answered)) (tr : Transition AdvisoryMap Answered) :
    sinceReleaseAll xid (trace ++ [tr]) =
      if releasesAll xid tr.label then [] else sinceReleaseAll xid trace ++ [tr.label] := by
  unfold sinceReleaseAll
  rw [List.map_append, List.map_singleton, List.rtakeWhile_concat]
  cases releasesAll xid tr.label <;> rfl

/-- The entries are the successful acquires less the successful releases. -/
def Balanced (trace : List (Transition AdvisoryMap Answered)) (advisory : AdvisoryMap) : Prop :=
  ∀ xid key,
    (entriesOf advisory xid key).length +
        (sinceReleaseAll xid trace).countP (releases xid key) =
      (sinceReleaseAll xid trace).countP (acquires xid key)

theorem entriesOf_granted {advisory advisory' : AdvisoryMap} {xid : TransactionId} {key : Int64}
    {mode : AdvisoryLockMode} (h : Effected advisory advisory' (.granted xid key mode))
    (xid' : TransactionId) (key' : Int64) :
    entriesOf advisory' xid' key' =
      if xid = xid' ∧ key = key' then entriesOf advisory xid' key' ++ [⟨xid, mode⟩]
      else entriesOf advisory xid' key' := by
  obtain ⟨-, hholders⟩ := h
  unfold entriesOf
  rw [hholders]
  by_cases hkey : key' = key
  · subst hkey
    rw [Function.update_self, List.filter_append]
    by_cases hxid : xid = xid'
    · simp [hxid]
    · simp [hxid]
  · rw [Function.update_of_ne hkey, if_neg fun hboth => hkey hboth.2.symm]

theorem entriesOf_released {advisory advisory' : AdvisoryMap} {xid : TransactionId} {key : Int64}
    (h : Effected advisory advisory' (.released xid key)) :
    (∃ entry, entriesOf advisory xid key = entry :: entriesOf advisory' xid key) ∧
      ∀ xid' key', ¬(xid' = xid ∧ key' = key) →
        entriesOf advisory' xid' key' = entriesOf advisory xid' key' := by
  obtain ⟨before, entry, after, hsplit, hentry, hbefore, hholders⟩ := h
  constructor
  · refine ⟨entry, ?_⟩
    have hnone : (before.filter fun e => decide (e.holder = xid)) = [] := by
      rw [List.filter_eq_nil_iff]
      intro other hother
      simpa using hbefore other hother
    unfold entriesOf
    rw [hholders, Function.update_self, hsplit, List.filter_append, List.filter_append, hnone,
      List.filter_cons_of_pos (by simpa using hentry)]
    rfl
  · intro xid' key' hother
    unfold entriesOf
    rw [hholders]
    by_cases hkey : key' = key
    · subst hkey
      have hxid : ¬entry.holder = xid' := by
        intro hxid
        exact hother ⟨hxid.symm.trans hentry, rfl⟩
      rw [Function.update_self, hsplit, List.filter_append, List.filter_append,
        List.filter_cons_of_neg (by simpa using hxid)]
    · rw [Function.update_of_ne hkey]

theorem entriesOf_cleared {advisory advisory' : AdvisoryMap} {xid : TransactionId}
    (h : Effected advisory advisory' (.cleared xid)) (xid' : TransactionId) (key : Int64) :
    entriesOf advisory' xid' key = if xid = xid' then [] else entriesOf advisory xid' key := by
  unfold entriesOf
  rw [h key, List.filter_filter]
  split
  · rename_i hxid
    subst hxid
    simp
  · rename_i hxid
    refine List.filter_congr ?_
    intro entry _
    by_cases hentry : entry.holder = xid'
    · simp [hentry, Ne.symm hxid]
    · simp [hentry]

theorem entriesOf_unchanged {advisory advisory' : AdvisoryMap}
    (h : Effected advisory advisory' .unchanged) (xid : TransactionId) (key : Int64) :
    entriesOf advisory' xid key = entriesOf advisory xid key := by
  unfold entriesOf
  rw [show advisoryLockHolders advisory' = advisoryLockHolders advisory from h]

theorem balanced_step {trace : List (Transition AdvisoryMap Answered)}
    {advisory advisory' : AdvisoryMap} {answered : Answered} (h : Balanced trace advisory)
    (hstep : AdvisoryStep advisory answered advisory') :
    Balanced (trace ++ [⟨advisory, answered, advisory'⟩]) advisory' := by
  intro xid key
  have hbalance := h xid key
  have heffect := advisoryStep_effected hstep
  rw [sinceReleaseAll_concat]
  unfold releasesAll
  dsimp only
  generalize hname : answered.effect = effect at heffect
  cases effect with
  | granted xid' key' mode =>
      rw [entriesOf_granted heffect, if_neg Bool.false_ne_true, List.countP_append,
        List.countP_append, List.countP_singleton, List.countP_singleton]
      simp only [acquires, releases, hname, decide_eq_true_eq, Bool.false_eq_true, if_false]
      split
      · rw [List.length_append, List.length_singleton]
        omega
      · omega
  | released xid' key' =>
      obtain ⟨⟨entry, hentry⟩, hothers⟩ := entriesOf_released heffect
      rw [if_neg Bool.false_ne_true, List.countP_append, List.countP_append,
        List.countP_singleton, List.countP_singleton]
      simp only [acquires, releases, hname, decide_eq_true_eq, Bool.false_eq_true, if_false]
      split
      · rename_i hsame
        obtain ⟨rfl, rfl⟩ := hsame
        rw [hentry, List.length_cons] at hbalance
        omega
      · rename_i hother
        rw [hothers xid key fun hsame => hother ⟨hsame.1.symm, hsame.2.symm⟩]
        omega
  | cleared xid' =>
      rw [entriesOf_cleared heffect]
      by_cases hxid : xid' = xid
      · simp [hxid]
      · simp only [hxid, if_false, decide_false, Bool.false_eq_true]
        rw [List.countP_append, List.countP_append, List.countP_singleton, List.countP_singleton]
        simp only [acquires, releases, hname, Bool.false_eq_true, if_false]
        omega
  | unchanged =>
      rw [entriesOf_unchanged heffect, if_neg Bool.false_ne_true, List.countP_append,
        List.countP_append, List.countP_singleton, List.countP_singleton]
      simp only [acquires, releases, hname, Bool.false_eq_true, if_false]
      omega

theorem balanced_run {trace : List (Transition AdvisoryMap Answered)} {advisory : AdvisoryMap}
    (hrun : Run AdvisoryStep ∅ trace advisory) : Balanced trace advisory := by
  refine Run.invariant_history Balanced (fun _ _ => True)
    (fun past s l s' h _ hstep => balanced_step h hstep) hrun [] ?_ fun _ _ => trivial
  intro xid key
  rfl

end Counts

theorem exclusive_run {trace : List (Transition AdvisoryMap Answered)} {advisory : AdvisoryMap}
    (hrun : Run AdvisoryStep ∅ trace advisory) : Exclusive advisory := by
  refine (Run.invariant_of_step Exclusive
    (fun _ _ _ h hstep => exclusive_effected h (advisoryStep_effected hstep)) hrun ?_).1
  intro key entry hentry
  simp [advisoryLockHolders] at hentry

/-- A release says whether the transaction held the key, and takes one of its
entries and nothing else. -/
def ReleasesOne (advisory : AdvisoryMap) (xid : TransactionId) (key : Int64) : Prop :=
  ∃ released advisory', releaseAdvisoryLock xid key advisory = .ok released advisory' ∧
    (released = true ↔ entriesOf advisory xid key ≠ []) ∧
    (released = true → ∃ entry, entriesOf advisory xid key = entry :: entriesOf advisory' xid key) ∧
    (released = false → entriesOf advisory' xid key = entriesOf advisory xid key) ∧
    ∀ xid' key', ¬(xid' = xid ∧ key' = key) →
      entriesOf advisory' xid' key' = entriesOf advisory xid' key'

theorem releasesOne (advisory : AdvisoryMap) (xid : TransactionId) (key : Int64) :
    ReleasesOne advisory xid key := by
  rcases releaseAdvisoryLock_cases advisory xid key with
    ⟨heq, hnone⟩ | ⟨before, entry, after, advisory', heq, hsplit⟩
  · refine ⟨false, advisory, heq, ?_, by simp, fun _ => rfl, fun _ _ _ => rfl⟩
    refine iff_of_false Bool.false_ne_true (not_not.mpr ?_)
    rw [entriesOf, List.filter_eq_nil_iff]
    intro entry hentry
    simpa using hnone entry hentry
  · have heffect : Effected advisory advisory' (.released xid key) :=
      ⟨before, entry, after, hsplit⟩
    obtain ⟨hentry, hothers⟩ := entriesOf_released heffect
    refine ⟨true, advisory', heq, ?_, fun _ => hentry, by simp, hothers⟩
    obtain ⟨first, hfirst⟩ := hentry
    rw [hfirst]
    simp

end PostgressRs.Txn.AdvisoryLocks
