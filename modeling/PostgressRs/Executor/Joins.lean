import PostgressRs.Executor.Evaluation
import PostgressRs.Executor.HeapAccess

/-!
Joins of two lists of rows (`src/executor/select/algorithms.rs`,
`src/executor/select/joins.rs`).
-/

namespace PostgressRs.Executor.Joins

open PostgressRs.Executor.Evaluation
open PostgressRs.Executor.HeapAccess (Row)
open PostgressRs.Sql.Ast
open PostgressRs.Types

section Padding

def firstWidth (rows : List Row) : Nat := (rows.head?.map (·.2.length)).getD 0

/-- The width of the right side, or of the left one if there is no right row. -/
def rightColCount (left right : List Row) : Nat :=
  if right.isEmpty then firstWidth left else firstWidth right

def blanks (count : Nat) : List String := List.replicate count ""

def combined (left right : Row) : Row := (left.1, left.2 ++ right.2)

def paddedRight (count : Nat) (left : Row) : Row := (left.1, left.2 ++ blanks count)

def paddedLeft (count : Nat) (right : Row) : Row := (right.1, blanks count ++ right.2)

def keepsLeft : JoinType → Bool
  | .left | .full => true
  | .inner | .right | .cross | .lateral => false

def keepsRight : JoinType → Bool
  | .right | .full => true
  | .inner | .left | .cross | .lateral => false

end Padding

section Hash

variable [Scalars] (desc : Option TupleDesc)

/-- `hash_table`: the rows of a key in the order they were pushed. -/
abbrev HashTable : Type := String → Option (List (List String))

def HashTable.push (table : HashTable) (key : String) (row : List String) : HashTable :=
  Function.update table key (some ((table key).getD [] ++ [row]))

def buildRow (onExpr : Expr) (table : HashTable) (right : Row) : HashTable :=
  match onExpr with
  | .binaryOp _ .equals rightExpr =>
      match evaluateExpr right.2 desc rightExpr with
      | some key => table.push key right.2
      | none => table
  | _ => table

def buildTable (onExpr : Expr) (right : List Row) : HashTable :=
  right.foldl (buildRow desc onExpr) fun _ => none

def probeRow (onExpr : Expr) (joinType : JoinType) (count : Nat) (table : HashTable)
    (left : Row) : List Row :=
  match onExpr with
  | .binaryOp leftExpr .equals _ =>
      match evaluateExpr left.2 desc leftExpr with
      | some key =>
          match table key with
          | some matching => matching.map fun right => (left.1, left.2 ++ right)
          | none => if joinType = .left then [paddedRight count left] else []
      | none => []
  | _ => []

/-- Whether a row has a key that one of the rows of the other side has as well. -/
def hasPartner (ownExpr otherExpr : Expr) (others : List Row) (row : Row) : Bool :=
  match evaluateExpr row.2 desc ownExpr with
  | some key => others.any fun other => evaluateExpr other.2 desc otherExpr = some key
  | none => false

def leftMatched (onExpr : Expr) (right : List Row) (left : Row) : Bool :=
  match onExpr with
  | .binaryOp leftExpr _ rightExpr => hasPartner desc leftExpr rightExpr right left
  | _ => false

def rightMatched (onExpr : Expr) (left : List Row) (right : Row) : Bool :=
  match onExpr with
  | .binaryOp leftExpr _ rightExpr => hasPartner desc rightExpr leftExpr left right
  | _ => false

def hashJoin (left right : List Row) (onExpr : Expr) (joinType : JoinType) : List Row :=
  let count := rightColCount left right
  let table := buildTable desc onExpr right
  let probed := left.flatMap (probeRow desc onExpr joinType count table)
  let unmatchedRight :=
    if joinType = .right ∨ joinType = .full then
      (right.filter (!rightMatched desc onExpr left ·)).map fun row =>
        (⟨⟨0⟩, 0⟩, (paddedLeft (firstWidth left) row).2)
    else []
  let unmatchedLeft :=
    if joinType = .full then
      (left.filter (!leftMatched desc onExpr right ·)).map (paddedRight count)
    else []
  probed ++ unmatchedRight ++ unmatchedLeft

end Hash

section Merge

/-- A row with its key and its entry of `left_matched` or `right_matched`. -/
structure Keyed where
  row : Row
  key : String
  matched : Bool

def sortedByKey (rows : List Keyed) : List Keyed :=
  rows.mergeSort fun a b => decide (a.key ≤ b.key)

/-- The rows of one left row with the right rows of its key, which become matched. -/
def matchRow (key : String) (left : Keyed) : List Keyed → List Row × List Keyed
  | [] => ([], [])
  | right :: rights =>
      if right.key = key then
        let (rows, rights) := matchRow key left rights
        (combined left.row right.row :: rows, { right with matched := true } :: rights)
      else ([], right :: rights)

/-- The rows of all the left rows of a key. -/
def matchRun (key : String) : List Keyed → List Keyed → List Row × List Keyed
  | [], rights => ([], rights)
  | left :: lefts, rights =>
      if left.key = key then
        let (rows, rights) := matchRow key left rights
        let (rows', rights) := matchRun key lefts rights
        (rows ++ rows', rights)
      else ([], rights)

/-- What is left of a side behind the rows of a key. -/
def skipRun (key : String) (rows : List Keyed) : List Keyed :=
  rows.dropWhile fun row => row.key = key

theorem length_skipRun_le (key : String) (rows : List Keyed) :
    (skipRun key rows).length ≤ rows.length :=
  (List.dropWhile_sublist _).length_le

theorem length_matchRow (key : String) (left : Keyed) (rights : List Keyed) :
    (matchRow key left rights).2.length = rights.length := by
  induction rights with
  | nil => rfl
  | cons right rights ih =>
      rw [matchRow]
      split
      · exact congrArg (· + 1) ih
      · rfl

theorem length_matchRun (key : String) (lefts rights : List Keyed) :
    (matchRun key lefts rights).2.length = rights.length := by
  induction lefts generalizing rights with
  | nil => rfl
  | cons left lefts ih =>
      rw [matchRun]
      split
      · exact (ih _).trans (length_matchRow key left rights)
      · rfl

/-- A row that is passed without a partner, if its side is kept. -/
def passed (keeps : Bool) (padded : Row → Row) (row : Keyed) : List Row :=
  if keeps && !row.matched then [padded row.row] else []

/-- The merge of two sorted sides, and what is left of them when one is at its end. -/
def mergeLoop (joinType : JoinType) (leftCount rightCount : Nat) :
    List Keyed → List Keyed → List Row × List Keyed × List Keyed
  | [], rights => ([], [], rights)
  | left :: lefts, [] => ([], left :: lefts, [])
  | left :: lefts, right :: rights =>
      if left.key = right.key then
        let (rows, rest) := mergeLoop joinType leftCount rightCount (skipRun left.key lefts)
          (skipRun left.key (matchRun left.key (left :: lefts) (right :: rights)).2)
        ((matchRun left.key (left :: lefts) (right :: rights)).1 ++ rows, rest)
      else if left.key < right.key then
        let (rows, rest) := mergeLoop joinType leftCount rightCount lefts (right :: rights)
        (passed (keepsLeft joinType) (paddedRight rightCount) left ++ rows, rest)
      else
        let (rows, rest) := mergeLoop joinType leftCount rightCount (left :: lefts) rights
        (passed (keepsRight joinType) (paddedLeft leftCount) right ++ rows, rest)
termination_by lefts rights => lefts.length + rights.length
decreasing_by
  · have hleft := length_skipRun_le left.key lefts
    have hright := length_skipRun_le left.key
      (matchRun left.key (left :: lefts) (right :: rights)).2
    rw [length_matchRun, List.length_cons] at hright
    simp only [List.length_cons]
    omega
  · simp only [List.length_cons]
    omega
  · simp only [List.length_cons]
    omega

def mergeSides (joinType : JoinType) (leftCount rightCount : Nat) (lefts rights : List Keyed) :
    List Row :=
  let (rows, lefts, rights) := mergeLoop joinType leftCount rightCount lefts rights
  rows ++ lefts.flatMap (passed (keepsLeft joinType) (paddedRight rightCount)) ++
    rights.flatMap (passed (keepsRight joinType) (paddedLeft leftCount))

end Merge

section MergeJoin

variable [Scalars] (desc : Option TupleDesc)

def leftWithKey (onExpr : Expr) (left : Row) : Keyed where
  row := left
  key :=
    match onExpr with
    | .binaryOp leftExpr _ _ => (evaluateExpr left.2 desc leftExpr).getD ""
    | _ => ""
  matched := false

def rightWithKey (onExpr : Expr) (right : Row) : Keyed where
  row := right
  key :=
    match onExpr with
    | .binaryOp _ _ rightExpr => (evaluateExpr right.2 desc rightExpr).getD ""
    | _ => ""
  matched := false

def mergeJoin (left right : List Row) (onExpr : Expr) (joinType : JoinType) : List Row :=
  let leftCount := firstWidth left
  let rightCount := rightColCount left right
  if left.isEmpty ∨ right.isEmpty then
    match joinType with
    | .left => left.map (paddedRight rightCount)
    | .right => right.map (paddedLeft leftCount)
    | .full => left.map (paddedRight rightCount) ++ right.map (paddedLeft leftCount)
    | .inner | .cross | .lateral => []
  else
    mergeSides joinType leftCount rightCount (sortedByKey (left.map (leftWithKey desc onExpr)))
      (sortedByKey (right.map (rightWithKey desc onExpr)))

end MergeJoin

section NestedLoop

variable [Scalars] (desc : Option TupleDesc)

def evaluateJoinCondition (onExpr : Expr) (row : List String) : Bool :=
  match evaluateExpr row desc onExpr with
  | some val => decide (val = "true") || decide (val = "t")
  | none => false

def matchingRows (onExpr : Expr) (right : List Row) (left : Row) : List Row :=
  (right.map (combined left)).filter (evaluateJoinCondition desc onExpr ·.2)

/-- The rows of `left` with their partners, or padded. -/
def leftRows (onExpr : Expr) (count : Nat) (right : List Row) (left : Row) : List Row :=
  let rows := matchingRows desc onExpr right left
  if rows.isEmpty then [paddedRight count left] else rows

def rightRows (onExpr : Expr) (count : Nat) (left : List Row) (right : Row) : List Row :=
  let rows := (left.map fun lrow => (right.1, lrow.2 ++ right.2)).filter
    (evaluateJoinCondition desc onExpr ·.2)
  if rows.isEmpty then [paddedLeft count right] else rows

def crossRows (left right : List Row) : List Row :=
  left.flatMap fun lrow => right.map (combined lrow)

def nestedLoopJoin (left right : List Row) (onExpr : Expr) (joinType : JoinType) : List Row :=
  match joinType with
  | .inner => left.flatMap (matchingRows desc onExpr right)
  | .left => left.flatMap (leftRows desc onExpr (firstWidth right) right)
  | .right => right.flatMap (rightRows desc onExpr (firstWidth left) left)
  | .full =>
      left.flatMap (leftRows desc onExpr (firstWidth right) right) ++
        (right.filter fun rrow => !left.any fun lrow =>
          evaluateJoinCondition desc onExpr (lrow.2 ++ rrow.2)).map
          (paddedLeft (firstWidth left))
  | .cross | .lateral => crossRows left right

end NestedLoop

section Choice

variable [Scalars] (desc : Option TupleDesc)

inductive JoinAlgorithm where
  | nestedLoop
  | hash
  | merge
deriving DecidableEq

def chooseJoinAlgorithm (leftSize rightSize : Nat) : JoinAlgorithm :=
  if leftSize ≤ 1000 ∨ rightSize ≤ 1000 then .hash else .merge

def isEquiJoin : Expr → Bool
  | .binaryOp _ .equals _ => true
  | _ => false

/-- Whether a column of `USING` keeps two rows apart. -/
def usingMismatch (colNames : List String) (left right : Row) (col : String) : Bool :=
  match colNames.findIdx? (eqIgnoreAsciiCase · col) with
  | some idx =>
      match left.2[idx]?, right.2[idx]? with
      | some l, some r => decide (l ≠ r)
      | _, _ => false
  | none => false

def usingJoin (colNames : List String) (left right : List Row) (cols : List String) : List Row :=
  left.flatMap fun lrow =>
    (right.filter fun rrow => !cols.any (usingMismatch colNames lrow rrow)).map (combined lrow)

/-- `desc` and `colNames` are those of the table that was resolved last. -/
def executeJoin (colNames : List String) (left right : List Row) (joinType : JoinType)
    (constraint : JoinConstraint Expr) : List Row :=
  match constraint with
  | .on onExpr =>
      if isEquiJoin onExpr then
        match chooseJoinAlgorithm left.length right.length with
        | .hash => hashJoin desc left right onExpr joinType
        | .merge => mergeJoin desc left right onExpr joinType
        | .nestedLoop => nestedLoopJoin desc left right onExpr joinType
      else nestedLoopJoin desc left right onExpr joinType
  | .none => crossRows left right
  | .usingColumns cols => usingJoin colNames left right cols

end Choice

end PostgressRs.Executor.Joins
