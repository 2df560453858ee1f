import Mathlib.Data.List.AList
import Mathlib.Data.String.Basic
import PostgressRs.Types

/-!
Block range indexes (`src/btree/brin_index.rs`).  Counters and block numbers wrap around.  A
`none` is a panic.
-/

namespace PostgressRs.Btree.BrinIndex

open PostgressRs.Types

abbrev BrinValue : Type := PageId × UInt16

abbrev BrinEntry : Type := String × BrinValue

structure BlockRangeSummary where
  blockStart : UInt32
  blockEnd : UInt32
  minValue : Option String
  maxValue : Option String
  nullCount : UInt32
  distinctCount : UInt32

/-- A value that is counted as a null. -/
def IsNull (value : String) : Prop := value = "" ∨ value = "NULL"

instance (value : String) : Decidable (IsNull value) := inferInstanceAs (Decidable (_ ∨ _))

namespace BlockRangeSummary

def widenMin (value : String) (self : BlockRangeSummary) : BlockRangeSummary :=
  match self.minValue with
  | none => { self with minValue := some value, maxValue := some value }
  | some min => if value < min then { self with minValue := some value } else self

def widenMax (value : String) (self : BlockRangeSummary) : BlockRangeSummary :=
  match self.maxValue with
  | none => { self with maxValue := some value }
  | some max => if max < value then { self with maxValue := some value } else self

/-- What an insertion does to the summary of its range. -/
def note (value : String) (self : BlockRangeSummary) : BlockRangeSummary :=
  if IsNull value then { self with nullCount := self.nullCount + 1 }
  else
    let self := (self.widenMin value).widenMax value
    { self with distinctCount := self.distinctCount + 1 }

def mightContain (self : BlockRangeSummary) (value : String) : Bool :=
  match self.minValue, self.maxValue with
  | some min, some max => min ≤ value ∧ value ≤ max
  | some min, none => min ≤ value
  | none, some max => value ≤ max
  | none, none => 0 < self.nullCount ∧ IsNull value

def mightOverlap (self : BlockRangeSummary) (min max : String) : Bool :=
  match self.minValue, self.maxValue with
  | some rangeMin, some rangeMax => rangeMin ≤ max ∧ min ≤ rangeMax
  | _, _ => true

end BlockRangeSummary

structure BrinIndex where
  pagesPerRange : UInt32
  ranges : List BlockRangeSummary
  values : AList fun _ : UInt32 => List BrinEntry

/-- An order in which the keys of a `HashMap` are visited. -/
structure Iteration where
  visit : List UInt32 → List UInt32
  perm (keys : List UInt32) : (visit keys).Perm keys

namespace BrinIndex

def new : BrinIndex where
  pagesPerRange := 128
  ranges := []
  values := ∅

def withPagesPerRange (self : BrinIndex) (pages : UInt32) : BrinIndex :=
  { self with pagesPerRange := pages }

def emptyRange (pagesPerRange : UInt32) (count : Nat) : BlockRangeSummary where
  blockStart := UInt32.ofNat count * pagesPerRange
  blockEnd := (UInt32.ofNat count + 1) * pagesPerRange - 1
  minValue := none
  maxValue := none
  nullCount := 0
  distinctCount := 0

/-- The loop that makes the ranges up to `rangeIdx`. -/
def growRanges (pagesPerRange : UInt32) (rangeIdx : Nat) (ranges : List BlockRangeSummary) :
    List BlockRangeSummary :=
  if ranges.length ≤ rangeIdx then
    growRanges pagesPerRange rangeIdx (ranges ++ [emptyRange pagesPerRange ranges.length])
  else ranges
termination_by rangeIdx + 1 - ranges.length
decreasing_by
  rw [List.length_append, List.length_singleton]
  omega

/-- The entries of a range. -/
def entriesAt (self : BrinIndex) (key : UInt32) : List BrinEntry := (self.values.lookup key).getD []

def setEntries (self : BrinIndex) (key : UInt32) (entries : List BrinEntry) : BrinIndex :=
  { self with values := self.values.insert key entries }

/-- The quotient panics if a range has no pages. -/
def insert (self : BrinIndex) (blockId : UInt32) (value : String) (tid : BrinValue) :
    Option BrinIndex :=
  if self.pagesPerRange = 0 then none
  else
    let rangeIdx := (blockId / self.pagesPerRange).toNat
    let ranges := growRanges self.pagesPerRange rangeIdx self.ranges
    let key := UInt32.ofNat rangeIdx
    some ({ self with ranges := ranges.modify rangeIdx (BlockRangeSummary.note value) }.setEntries
      key (self.entriesAt key ++ [(value, tid)]))

/-- The entries of the ranges that may have one. -/
def searchRanges (self : BrinIndex) (mightHave : BlockRangeSummary → Bool)
    (found : String → Bool) : List BrinValue :=
  self.ranges.zipIdx.flatMap fun (range, rangeIdx) =>
    if mightHave range then
      ((self.entriesAt (UInt32.ofNat rangeIdx)).filter fun (val, _) => found val).map Prod.snd
    else []

def lookup (self : BrinIndex) (value : String) : List BrinValue :=
  self.searchRanges (·.mightContain value) (· = value)

def lookupRange (self : BrinIndex) (min max : String) : List BrinValue :=
  self.searchRanges (·.mightOverlap min max) fun val => min ≤ val ∧ val ≤ max

/-- The first match in the first range that has one. -/
def delete (order : Iteration) (self : BrinIndex) (value : String) (tid : BrinValue) :
    BrinIndex × Bool :=
  match (order.visit self.values.keys).find? fun key => (value, tid) ∈ self.entriesAt key with
  | some key => (self.setEntries key ((self.entriesAt key).erase (value, tid)), true)
  | none => (self, false)

end BrinIndex

end PostgressRs.Btree.BrinIndex
