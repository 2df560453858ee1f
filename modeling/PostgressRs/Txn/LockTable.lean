import PostgressRs.Lib.Procedure
import PostgressRs.Txn.TransactionTable
import PostgressRs.Types

/-!
Table and row locks (`LockManager` of `src/transaction/locks.rs`).  A call holds
the mutexes it needs for as long as it runs.
-/

namespace PostgressRs.Txn.LockTable

open PostgressRs.Lib.Procedure
open PostgressRs.Txn.TransactionTable
open PostgressRs.Types

inductive LockMode where
  | accessShare
  | rowShare
  | rowExclusive
  | shareUpdateExclusive
  | share
  | shareRowExclusive
  | exclusive
  | accessExclusive
  | forUpdate
  | forShare
  | forNoKeyUpdate
  | forKeyShare
deriving DecidableEq

namespace LockMode

def conflictsWith (self other : LockMode) : Bool :=
  match self, other with
  | accessShare, exclusive | exclusive, accessShare => true
  | accessShare, accessExclusive | accessExclusive, accessShare => true
  | rowShare, rowExclusive | rowExclusive, rowShare => true
  | rowShare, shareUpdateExclusive | shareUpdateExclusive, rowShare => true
  | rowShare, exclusive | exclusive, rowShare => true
  | rowShare, accessExclusive | accessExclusive, rowShare => true
  | rowExclusive, shareUpdateExclusive | shareUpdateExclusive, rowExclusive => true
  | rowExclusive, share | share, rowExclusive => true
  | rowExclusive, shareRowExclusive | shareRowExclusive, rowExclusive => true
  | rowExclusive, exclusive | exclusive, rowExclusive => true
  | rowExclusive, accessExclusive | accessExclusive, rowExclusive => true
  | shareUpdateExclusive, share | share, shareUpdateExclusive => true
  | shareUpdateExclusive, shareRowExclusive | shareRowExclusive, shareUpdateExclusive => true
  | shareUpdateExclusive, exclusive | exclusive, shareUpdateExclusive => true
  | shareUpdateExclusive, accessExclusive | accessExclusive, shareUpdateExclusive => true
  | share, shareRowExclusive | shareRowExclusive, share => true
  | share, exclusive | exclusive, share => true
  | share, accessExclusive | accessExclusive, share => true
  | shareRowExclusive, exclusive | exclusive, shareRowExclusive => true
  | shareRowExclusive, accessExclusive | accessExclusive, shareRowExclusive => true
  | exclusive, accessExclusive | accessExclusive, exclusive => true
  | forUpdate, forUpdate | forUpdate, forShare | forShare, forUpdate => true
  | forUpdate, forNoKeyUpdate | forNoKeyUpdate, forUpdate => true
  | forUpdate, forKeyShare | forKeyShare, forUpdate => true
  | forShare, forNoKeyUpdate | forNoKeyUpdate, forShare => true
  | forShare, forKeyShare | forKeyShare, forShare => true
  | forNoKeyUpdate, forNoKeyUpdate => true
  | forKeyShare, forKeyShare => false
  | _, _ => false

theorem conflictsWith_comm (mode mode' : LockMode) :
    mode.conflictsWith mode' = mode'.conflictsWith mode := by
  cases mode <;> cases mode' <;> rfl

end LockMode

structure LockRequest where
  xid : TransactionId
  mode : LockMode
  relationOid : Oid
  pageId : Option UInt32
  tupleOffset : Option UInt16

structure LockEntry where
  holder : TransactionId
  mode : LockMode
deriving DecidableEq

/-- The lock lists of one kind of object. -/
abbrev LockMap (κ : Type) := AList fun _ : κ => List LockEntry

abbrev RowKey := Oid × UInt32 × UInt16

/-- Advisory locks are kept apart from these maps. -/
structure LockManager where
  tableLocks : LockMap Oid
  rowLocks : LockMap RowKey
  waitQueue : List LockRequest

def LockManager.new : LockManager where
  tableLocks := ∅
  rowLocks := ∅
  waitQueue := []

section Maps

variable {κ : Type} [DecidableEq κ]

/-- `table_lock_holders` and `row_lock_holders`. -/
def holders (locks : LockMap κ) (key : κ) : List LockEntry :=
  (locks.lookup key).getD []

/-- The entry of another transaction that a request meets first. -/
def conflicting (xid : TransactionId) (mode : LockMode) (locks : List LockEntry) :
    Option LockEntry :=
  locks.find? fun existing => existing.holder ≠ xid ∧ mode.conflictsWith existing.mode

/-- `entry(key).or_default()`. -/
def orDefault (locks : LockMap κ) (key : κ) : LockMap κ :=
  match locks.lookup key with
  | some _ => locks
  | none => locks.insert key []

/-- The lock map after a request, and whether it was granted. -/
def request (locks : LockMap κ) (key : κ) (xid : TransactionId) (mode : LockMode) :
    LockMap κ × Bool :=
  match conflicting xid mode (holders locks key) with
  | some _ => (orDefault locks key, false)
  | none => (locks.insert key (holders locks key ++ [⟨xid, mode⟩]), true)

/-- `release_table_lock` and `release_row_lock`: a list that becomes empty is
removed. -/
def release (locks : LockMap κ) (key : κ) (xid : TransactionId) : LockMap κ :=
  match locks.lookup key with
  | none => locks
  | some entries =>
      let kept := entries.filter fun l => l.holder ≠ xid
      if kept = [] then locks.erase key else locks.insert key kept

/-- The two loops of `release_all_locks` over one map. -/
def releaseEvery (locks : LockMap κ) (xid : TransactionId) : LockMap κ :=
  locks.keys.foldl (fun locks key => release locks key xid) locks

end Maps

/-- `{:?}` of an `Oid`. -/
def debugOid (oid : Oid) : String := "Oid(" ++ toString oid.val.toNat ++ ")"

def acquireTableLock (xid : TransactionId) (relationOid : Oid) (mode : LockMode) :
    Proc LockManager Unit := fun mgr =>
  match request mgr.tableLocks relationOid xid mode with
  | (tableLocks, true) => .ok () { mgr with tableLocks := tableLocks }
  | (tableLocks, false) =>
      .err ("Lock conflict on relation " ++ debugOid relationOid)
        { mgr with
          tableLocks := tableLocks
          waitQueue := mgr.waitQueue ++ [⟨xid, mode, relationOid, none, none⟩] }

def releaseTableLock (xid : TransactionId) (relationOid : Oid) : Proc LockManager Unit :=
  modify fun mgr => { mgr with tableLocks := release mgr.tableLocks relationOid xid }

def acquireRowLock (xid : TransactionId) (relationOid : Oid) (pageId : UInt32)
    (tupleOffset : UInt16) (mode : LockMode) : Proc LockManager Unit := fun mgr =>
  match request mgr.rowLocks (relationOid, pageId, tupleOffset) xid mode with
  | (rowLocks, true) => .ok () { mgr with rowLocks := rowLocks }
  | (rowLocks, false) =>
      .err ("Row lock conflict on " ++ toString pageId.toNat ++ ":" ++ toString tupleOffset.toNat)
        { mgr with
          rowLocks := rowLocks
          waitQueue :=
            mgr.waitQueue ++ [⟨xid, mode, relationOid, some pageId, some tupleOffset⟩] }

def releaseRowLock (xid : TransactionId) (relationOid : Oid) (pageId : UInt32)
    (tupleOffset : UInt16) : Proc LockManager Unit :=
  modify fun mgr =>
    { mgr with rowLocks := release mgr.rowLocks (relationOid, pageId, tupleOffset) xid }

def releaseAllLocks (xid : TransactionId) : Proc LockManager Unit :=
  modify fun mgr =>
    { mgr with
      tableLocks := releaseEvery mgr.tableLocks xid
      rowLocks := releaseEvery mgr.rowLocks xid }

section Holders

variable {κ : Type} [DecidableEq κ] {locks : LockMap κ} {key : κ} {xid : TransactionId}
  {mode : LockMode}

theorem holders_orDefault (locks : LockMap κ) (key : κ) :
    holders (orDefault locks key) = holders locks := by
  unfold orDefault
  cases hlookup : locks.lookup key with
  | some entries => rfl
  | none =>
      funext key'
      by_cases hkey : key' = key
      · subst hkey
        simp [holders, hlookup]
      · simp [holders, AList.lookup_insert_ne hkey]

/-- A refused request leaves every list as it was; a granted one is added to the
list of its object. -/
theorem holders_request (locks : LockMap κ) (key : κ) (xid : TransactionId) (mode : LockMode) :
    holders (request locks key xid mode).1 =
      if (request locks key xid mode).2 then
        Function.update (holders locks) key (holders locks key ++ [⟨xid, mode⟩])
      else holders locks := by
  unfold request
  cases conflicting xid mode (holders locks key) with
  | some existing => simp [holders_orDefault]
  | none =>
      funext key'
      by_cases hkey : key' = key
      · subst hkey
        simp [holders]
      · simp [holders, AList.lookup_insert_ne hkey, Function.update_of_ne hkey]

/-- A request is granted if no other transaction holds a conflicting mode. -/
theorem request_granted :
    (request locks key xid mode).2 = true ↔
      ∀ existing ∈ holders locks key, existing.holder ≠ xid →
        mode.conflictsWith existing.mode = false := by
  unfold request conflicting
  constructor
  · intro h existing hmem hother
    cases hfind : (holders locks key).find? fun existing =>
        decide (existing.holder ≠ xid ∧ mode.conflictsWith existing.mode) with
    | some found =>
        rw [hfind] at h
        cases h
    | none =>
        have hnone := List.find?_eq_none.mp hfind existing hmem
        simpa [hother] using hnone
  · intro h
    have hnone : (holders locks key).find? (fun existing =>
        decide (existing.holder ≠ xid ∧ mode.conflictsWith existing.mode)) = none := by
      rw [List.find?_eq_none]
      intro existing hmem
      by_cases hother : existing.holder = xid
      · simp [hother]
      · simp [h existing hmem hother]
    rw [hnone]

theorem holders_release (locks : LockMap κ) (key : κ) (xid : TransactionId) :
    holders (release locks key xid) =
      Function.update (holders locks) key ((holders locks key).filter fun l => l.holder ≠ xid) := by
  unfold release
  funext key'
  cases hlookup : locks.lookup key with
  | none =>
      by_cases hkey : key' = key
      · subst hkey
        simp [holders, hlookup]
      · simp [Function.update_of_ne hkey]
  | some entries =>
      by_cases hkey : key' = key
      · subst hkey
        by_cases hkept : (entries.filter fun l => decide (l.holder ≠ xid)) = []
        · simp only [hkept, if_true, holders, AList.lookup_erase, hlookup, Option.getD_none,
            Option.getD_some, Function.update_self]
        · simp only [hkept, if_false, holders, AList.lookup_insert, hlookup, Option.getD_some,
            Function.update_self]
      · by_cases hkept : (entries.filter fun l => decide (l.holder ≠ xid)) = []
        · simp only [hkept, if_true, holders, AList.lookup_erase_ne hkey,
            Function.update_of_ne hkey]
        · simp only [hkept, if_false, holders, AList.lookup_insert_ne hkey,
            Function.update_of_ne hkey]

theorem mem_of_mem_release {key' : κ} {l : LockEntry}
    (h : l ∈ holders (release locks key xid) key') : l ∈ holders locks key' := by
  rw [holders_release] at h
  by_cases hkey : key' = key
  · subst hkey
    rw [Function.update_self] at h
    exact List.mem_of_mem_filter h
  · rwa [Function.update_of_ne hkey] at h

theorem mem_of_mem_releaseEvery {key : κ} {l : LockEntry}
    (h : l ∈ holders (releaseEvery locks xid) key) : l ∈ holders locks key := by
  unfold releaseEvery at h
  revert h
  generalize locks.keys = keys
  induction keys generalizing locks with
  | nil => exact id
  | cons key' keys ih =>
      intro h
      exact mem_of_mem_release (ih h)

end Holders

end PostgressRs.Txn.LockTable
