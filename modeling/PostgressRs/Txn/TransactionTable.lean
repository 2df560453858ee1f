import Mathlib.Data.List.AList

/-!
Transactions and snapshots (`src/transaction/mod.rs`).  `next_xid` is an atomic
`u32` and wraps.  A transaction's timeout configuration and its unused lock list
are left out.
-/

namespace PostgressRs.Txn.TransactionTable

structure TransactionId where
  val : UInt32
deriving DecidableEq

inductive IsolationLevel where
  | readUncommitted
  | readCommitted
  | repeatableRead
  | serializable
deriving DecidableEq

inductive TxnState where
  | active
  | committed
  | aborted
deriving DecidableEq

structure Snapshot where
  xid : TransactionId
  activeXids : List TransactionId
deriving DecidableEq

def Snapshot.isVisible (self : Snapshot) (xmin : TransactionId) (xmax : Option TransactionId) :
    Bool :=
  if self.xid.val ≤ xmin.val then false
  else if self.activeXids.contains xmin then false
  else
    match xmax with
    | some xmax => decide (xmax.val < self.xid.val) && !self.activeXids.contains xmax
    | none => true

structure Transaction where
  xid : TransactionId
  isolation : IsolationLevel
  state : TxnState
  snapshot : Option Snapshot

def Transaction.new (xid : TransactionId) (isolation : IsolationLevel) : Transaction where
  xid := xid
  isolation := isolation
  state := .active
  snapshot := none

structure TransactionManager where
  nextXid : UInt32
  active : AList fun _ : TransactionId => Transaction

namespace TransactionManager

def new : TransactionManager where
  nextXid := 1
  active := ∅

def createSnapshot (self : TransactionManager) (currentXid : TransactionId) : Snapshot where
  xid := currentXid
  activeXids := self.active.keys

def begin (self : TransactionManager) (isolation : IsolationLevel) :
    TransactionId × TransactionManager :=
  let xid : TransactionId := ⟨self.nextXid⟩
  let txn := Transaction.new xid isolation
  let txn :=
    match isolation with
    | .readUncommitted | .readCommitted => txn
    | .repeatableRead | .serializable =>
        { txn with snapshot := some (self.createSnapshot xid) }
  (xid, { nextXid := self.nextXid + 1, active := self.active.insert xid txn })

def notFound (xid : TransactionId) : String :=
  "Transaction TransactionId(" ++ toString xid.val.toNat ++ ") not found"

/-- `commit` and `rollback`: the transaction is marked and removed, so the mark
is not kept anywhere. -/
def finish (self : TransactionManager) (xid : TransactionId) :
    Except String Unit × TransactionManager :=
  match self.active.lookup xid with
  | some _ => (.ok (), { self with active := self.active.erase xid })
  | none => (.error (notFound xid), self)

def commit (self : TransactionManager) (xid : TransactionId) :
    Except String Unit × TransactionManager :=
  self.finish xid

def rollback (self : TransactionManager) (xid : TransactionId) :
    Except String Unit × TransactionManager :=
  self.finish xid

/-- The snapshot stored by `begin` is not consulted. -/
def getSnapshotForStatement (self : TransactionManager) (xid : TransactionId) : Snapshot where
  xid := xid
  activeXids := self.active.keys

end TransactionManager

end PostgressRs.Txn.TransactionTable
