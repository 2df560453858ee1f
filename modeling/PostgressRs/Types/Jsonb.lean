import PostgressRs.Server.Queries

/-!
JSON values and their paths (`src/types/jsonb.rs`).
-/

namespace PostgressRs.Types.Jsonb

open PostgressRs.Server.Queries

/-- The numbers are of any type; no path looks at them. -/
inductive JsonbValue (F : Type) where
  | null
  | bool (b : Bool)
  | number (n : F)
  | string (s : String)
  | array (arr : List (JsonbValue F))
  | object (obj : List (String × JsonbValue F))

variable {F : Type}

/-- `first.parse().ok()`. -/
def parseStep (first : String) : Option Nat := parseUsize first.toList

def jsonbPath : JsonbValue F → List String → Option (JsonbValue F)
  | json, [] => some json
  | .object obj, first :: rest =>
      (obj.find? fun entry => entry.1 = first).bind fun entry => jsonbPath entry.2 rest
  | .array arr, first :: rest =>
      (parseStep first).bind fun idx => arr[idx]?.bind fun v => jsonbPath v rest
  | _, _ :: _ => none

/-- An index that is not a number is 0. -/
def jsonbSet : JsonbValue F → List String → JsonbValue F → JsonbValue F
  | _, [], newVal => newVal
  | .object obj, first :: rest, newVal =>
      match obj.findIdx? fun entry => entry.1 = first with
      | some pos =>
          .object <| obj.modify pos fun entry =>
            (entry.1, if rest.isEmpty then newVal else jsonbSet entry.2 rest newVal)
      | none =>
          if rest.isEmpty then .object (obj ++ [(first, newVal)])
          else .object (obj ++ [(first, jsonbSet (.object []) rest newVal)])
  | .array arr, first :: rest, newVal =>
      let idx := (parseStep first).getD 0
      if idx < arr.length then
        .array (arr.modify idx fun v => if rest.isEmpty then newVal else jsonbSet v rest newVal)
      else if rest.isEmpty then .array (arr ++ [newVal])
      else .array (arr ++ [jsonbSet (.object []) rest newVal])
  | _, _ :: _, newVal => newVal

/-- The last step at an array is parsed; the steps before it are compared with the printed
index. -/
def jsonbDelete : JsonbValue F → List String → JsonbValue F
  | json, [] => json
  | .object obj, first :: rest =>
      if rest.isEmpty then .object (obj.filter fun entry => entry.1 ≠ first)
      else
        .object <| obj.map fun entry =>
          if entry.1 = first then (entry.1, jsonbDelete entry.2 rest) else entry
  | .array arr, first :: rest =>
      if rest.isEmpty then
        let idx := (parseStep first).getD 0
        .array ((arr.zipIdx.filter fun element => element.2 ≠ idx).map Prod.fst)
      else .array (arr.mapIdx fun i v => if toString i = first then jsonbDelete v rest else v)
  | json, _ :: _ => json

end PostgressRs.Types.Jsonb
