import Mathlib.Data.Finset.Insert
import PostgressRs.Lib.Postings
import PostgressRs.Types

/-!
Inverted indexes (`src/btree/gin_index.rs`).
-/

namespace PostgressRs.Btree.GinIndex

open PostgressRs.Lib.Postings
open PostgressRs.Types

abbrev Tid : Type := PageId × UInt16

/-- `str::to_lowercase`, which changes nothing in a text that is already lowercased. -/
class Casing where
  toLowercase : String → String
  toLowercase_toLowercase (s : String) : toLowercase (toLowercase s) = toLowercase s

export Casing (toLowercase toLowercase_toLowercase)

inductive GinIndexType where
  | array
  | fullText
  | jsonb
deriving DecidableEq

structure GinIndex where
  indexType : GinIndexType
  entries : PostingLists String Tid

/-- The tids found so far, and the set of those that were seen. -/
structure Found where
  result : List Tid
  seen : Finset Tid

def Found.note (self : Found) (tid : Tid) : Found :=
  if tid ∈ self.seen then self else ⟨self.result ++ [tid], insert tid self.seen⟩

namespace GinIndex

variable [Casing]

def new (indexType : GinIndexType) : GinIndex := ⟨indexType, ∅⟩

/-- The loop over the keys of one entry. -/
def pushAll (self : GinIndex) (normalize : String → String) (keys : List String) (tid : Tid) :
    GinIndex :=
  { self with
    entries := keys.foldl (fun entries key => push entries (normalize key) tid) self.entries }

def insertArrayValues (self : GinIndex) (values : List String) (tid : Tid) : GinIndex :=
  self.pushAll id values tid

def insertFullText (self : GinIndex) (terms : List String) (tid : Tid) : GinIndex :=
  self.pushAll toLowercase terms tid

def insertJsonbKeys (self : GinIndex) (keys : List String) (tid : Tid) : GinIndex :=
  self.pushAll id keys tid

def lookup (self : GinIndex) (key : String) : List Tid :=
  match self.indexType with
  | .fullText => under self.entries (toLowercase key)
  | _ => under self.entries key

omit [Casing] in
/-- The test that goes on with the next tid if it fails. -/
def isPosted (self : GinIndex) (tid : Tid) (value : String) : Bool :=
  match self.entries.lookup value with
  | some tids => tid ∈ tids
  | none => false

omit [Casing] in
def contains (self : GinIndex) : List String → List Tid
  | [] => []
  | first :: values =>
      match self.entries.lookup first with
      | some firstTids => firstTids.filter fun tid => values.all (self.isPosted tid)
      | none => []

omit [Casing] in
def noteAll (self : GinIndex) (found : Found) (value : String) : Found :=
  match self.entries.lookup value with
  | some tids => tids.foldl Found.note found
  | none => found

omit [Casing] in
def anyContains (self : GinIndex) (values : List String) : List Tid :=
  (values.foldl self.noteAll ⟨[], ∅⟩).result

omit [Casing] in
def delete (self : GinIndex) (key : String) (tid : Tid) : GinIndex × Bool :=
  let (entries, deleted) := remove self.entries key tid
  ({ self with entries := entries }, deleted)

end GinIndex

end PostgressRs.Btree.GinIndex
