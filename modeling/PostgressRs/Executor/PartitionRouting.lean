import PostgressRs.Sql.Ast
import PostgressRs.Lib.Utf8
import PostgressRs.Types

/-!
The routing of values to partitions and the pruning of partitions
(`src/executor/partition/mod.rs`, `src/executor/partition/pruning.rs`).  A `none` of `Checked` is
a panic.
-/

namespace PostgressRs.Executor.PartitionRouting

open PostgressRs.Lib.ByteBuffer
open PostgressRs.Lib.Utf8
open PostgressRs.Sql.Ast
open PostgressRs.Types

inductive PartitionStrategy where
  | range
  | list
  | hash

structure RangeBound where
  inclusive : Bool
  values : List String
deriving DecidableEq

structure ListBound where
  values : List String
deriving DecidableEq

structure HashBound where
  modulus : UInt32
  remainder : UInt32
deriving DecidableEq

inductive PartitionBound where
  | range (bounds : List RangeBound)
  | list (bounds : List ListBound)
  | hash (bound : HashBound)
deriving DecidableEq

structure PartitionEntry where
  partitionOid : Oid
  bound : PartitionBound
deriving DecidableEq

structure PartitionManager where
  strategy : PartitionStrategy
  columns : List String
  partitions : List PartitionEntry

abbrev Checked (α : Type) : Type := Option α

section Routing

def RangeBound.admits (self : RangeBound) (cv : String) : Bool :=
  if self.inclusive then cv ≤ self.values.head?.getD "" else cv < self.values.head?.getD ""

def PartitionEntry.admitsRange (self : PartitionEntry) (cv : String) : Bool :=
  match self.bound with
  | .range bounds => bounds.any (·.admits cv)
  | _ => false

def PartitionEntry.admitsList (self : PartitionEntry) (columnValue : String) : Bool :=
  match self.bound with
  | .list bounds => bounds.any fun bound => columnValue ∈ bound.values
  | _ => false

/-- The remainder panics if the modulus is zero. -/
def PartitionEntry.admitsHash (self : PartitionEntry) (hash : UInt32) : Checked Bool :=
  match self.bound with
  | .hash h => if h.modulus = 0 then none else some (hash % h.modulus = h.remainder)
  | _ => some false

/-- The first partition that passes a test that may panic. -/
def findChecked (test : PartitionEntry → Checked Bool) :
    List PartitionEntry → Checked (Option PartitionEntry)
  | [] => some none
  | entry :: entries => do
      if ← test entry then pure (some entry) else findChecked test entries

namespace PartitionManager

def hashValue (value : String) : UInt32 := rollingHash (asBytes value)

def findPartitionForValue (self : PartitionManager) (columnValue : String) :
    Checked (Option PartitionEntry) :=
  match self.strategy with
  | .range => some (self.partitions.find? (·.admitsRange columnValue))
  | .list => some (self.partitions.find? (·.admitsList columnValue))
  | .hash => findChecked (·.admitsHash (hashValue columnValue)) self.partitions

end PartitionManager

end Routing

section Pruning

def literalValue : Literal → Option String
  | .string s => some s
  | .number n => some n
  | _ => none

def equalitySides : Expr → Expr → Option (String × String)
  | .identifier col, .literal lit => (literalValue lit).map (col, ·)
  | _, _ => none

def extractEqualityPredicate : Expr → Option (String × String)
  | .binaryOp left op right =>
      match op with
      | .equals => equalitySides left right
      | .and => (extractEqualityPredicate left).or (extractEqualityPredicate right)
      | _ => none
  | _ => none

def allPartitions (manager : PartitionManager) : List Oid :=
  manager.partitions.map PartitionEntry.partitionOid

def prunePartitions (whereClause : Option Expr) (manager : PartitionManager) :
    Checked (List Oid) :=
  match whereClause.bind extractEqualityPredicate with
  | some (column, value) =>
      if column ∈ manager.columns then do
        match ← manager.findPartitionForValue value with
        | some entry => pure [entry.partitionOid]
        | none => pure (allPartitions manager)
      else some (allPartitions manager)
  | none => some (allPartitions manager)

end Pruning

end PostgressRs.Executor.PartitionRouting
