import Mathlib.Data.List.Nodup
import Mathlib.Order.Defs.PartialOrder
import PostgressRs.Types.Jsonb

/-!
Containment of JSON values (`src/types/jsonb.rs`): a preorder on the values whose objects have
unique keys.
-/

namespace PostgressRs.Types.JsonbContainment

open PostgressRs.Types.Jsonb

section Printing

/-- `serde_json::Value` over its numbers.  The entries of a map are in the order of their
keys. -/
inductive JsonValue (N : Type) where
  | null
  | bool (b : Bool)
  | number (n : N)
  | string (s : String)
  | array (arr : List (JsonValue N))
  | object (map : List (String × JsonValue N))

/-- What is used of `serde_json`: its numbers `N` for the floats `F`, and its printer, which
may fail. -/
class SerdeJson (F : Type) (N : outParam Type) where
  fromF64 : F → Option N
  zero : N
  print : JsonValue N → Option String

variable {F N : Type}

/-- `Map::insert`: a key that is there keeps its place and takes the new value. -/
def insertKey (k : String) (v : JsonValue N) :
    List (String × JsonValue N) → List (String × JsonValue N)
  | [] => [(k, v)]
  | (k', v') :: map =>
      if k < k' then (k, v) :: (k', v') :: map
      else if k = k' then (k, v) :: map
      else (k', v') :: insertKey k v map

def collectMap (entries : List (String × JsonValue N)) : List (String × JsonValue N) :=
  entries.foldl (fun map entry => insertKey entry.1 entry.2 map) []

variable [SerdeJson F N]

mutual

def toSerde : JsonbValue F → JsonValue N
  | .null => .null
  | .bool b => .bool b
  | .number n => .number ((SerdeJson.fromF64 n).getD (SerdeJson.zero F))
  | .string s => .string s
  | .array arr => .array (toSerdeElements arr)
  | .object obj => .object (collectMap (toSerdeEntries obj))

def toSerdeElements : List (JsonbValue F) → List (JsonValue N)
  | [] => []
  | v :: arr => toSerde v :: toSerdeElements arr

def toSerdeEntries : List (String × JsonbValue F) → List (String × JsonValue N)
  | [] => []
  | (k, v) :: obj => (k, toSerde v) :: toSerdeEntries obj

end

def toStringPretty (json : JsonbValue F) : String :=
  (SerdeJson.print F (toSerde json)).getD "null"

end Printing

section Containment

variable {F N : Type} [SerdeJson F N]

mutual

def jsonbContains : JsonbValue F → JsonbValue F → Bool
  | .object a, .object b => containsEntries a b
  | .array a, .array b => containsElements a b
  | a, b => toStringPretty a == toStringPretty b

/-- Only the first member of `a` under a key is looked at. -/
def containsEntries : List (String × JsonbValue F) → List (String × JsonbValue F) → Bool
  | _, [] => true
  | a, (k, v) :: b =>
      ((a.find? fun entry => entry.1 = k).any fun entry => jsonbContains entry.2 v) &&
        containsEntries a b

def containsElements : List (JsonbValue F) → List (JsonbValue F) → Bool
  | _, [] => true
  | a, bv :: b => (a.any fun av => jsonbContains av bv) && containsElements a b

end

def jsonbContainedBy (json other : JsonbValue F) : Bool := jsonbContains other json

end Containment

section Kinds

variable {F N : Type}

inductive Kind where
  | null
  | bool
  | number
  | string
  | array
  | object
  deriving DecidableEq

def JsonValue.kind : JsonValue N → Kind
  | .null => .null
  | .bool _ => .bool
  | .number _ => .number
  | .string _ => .string
  | .array _ => .array
  | .object _ => .object

def kind : JsonbValue F → Kind
  | .null => .null
  | .bool _ => .bool
  | .number _ => .number
  | .string _ => .string
  | .array _ => .array
  | .object _ => .object

/-- Printing a value succeeds, and values of different kinds print differently. -/
class LawfulSerdeJson (F : Type) (N : outParam Type) [SerdeJson F N] : Prop where
  isSome_print (v : JsonValue N) : (SerdeJson.print F v).isSome = true
  kind_eq_of_print_eq {u v : JsonValue N} :
    SerdeJson.print F u = SerdeJson.print F v → u.kind = v.kind

variable [SerdeJson F N]

theorem kind_toSerde (json : JsonbValue F) : (toSerde json).kind = kind json := by
  cases json <;> simp [toSerde, JsonValue.kind, kind]

theorem kind_eq_of_toStringPretty_eq [LawfulSerdeJson F N] {a b : JsonbValue F}
    (h : toStringPretty a = toStringPretty b) : kind a = kind b := by
  obtain ⟨s, hs⟩ := Option.isSome_iff_exists.mp (LawfulSerdeJson.isSome_print (F := F) (toSerde a))
  obtain ⟨t, ht⟩ := Option.isSome_iff_exists.mp (LawfulSerdeJson.isSome_print (F := F) (toSerde b))
  rw [toStringPretty, toStringPretty, hs, ht, Option.getD_some, Option.getD_some] at h
  have hprint : SerdeJson.print F (toSerde a) = SerdeJson.print F (toSerde b) := by
    rw [hs, ht, h]
  simpa only [kind_toSerde] using LawfulSerdeJson.kind_eq_of_print_eq hprint

end Kinds

section Rules

variable {F N : Type} [SerdeJson F N]

theorem containsEntries_iff {a b : List (String × JsonbValue F)} :
    containsEntries a b = true ↔ ∀ entry ∈ b, ∃ found,
      (a.find? fun other => other.1 = entry.1) = some found ∧
        jsonbContains found.2 entry.2 = true := by
  induction b with
  | nil => simp [containsEntries]
  | cons entry b ih =>
      simp only [containsEntries, Bool.and_eq_true, ih, Option.any_eq_true, List.forall_mem_cons]

theorem containsElements_iff {a b : List (JsonbValue F)} :
    containsElements a b = true ↔ ∀ bv ∈ b, ∃ av ∈ a, jsonbContains av bv = true := by
  induction b with
  | nil => simp [containsElements]
  | cons bv b ih =>
      simp only [containsElements, Bool.and_eq_true, ih, List.any_eq_true, List.forall_mem_cons]

/-- Away from two objects and two arrays, the prints decide. -/
theorem jsonbContains_eq_beq {a b : JsonbValue F}
    (hobject : kind a = .object → kind b ≠ .object) (harray : kind a = .array → kind b ≠ .array) :
    jsonbContains a b = (toStringPretty a == toStringPretty b) := by
  fun_cases jsonbContains a b with
  | case1 a b => exact absurd rfl (hobject rfl)
  | case2 a b => exact absurd rfl (harray rfl)
  | case3 a b => rfl

end Rules

section Preorder

variable {F N : Type}

/-- The keys of every object are unique. -/
inductive UniqueKeys : JsonbValue F → Prop
  | null : UniqueKeys .null
  | bool (b : Bool) : UniqueKeys (.bool b)
  | number (n : F) : UniqueKeys (.number n)
  | string (s : String) : UniqueKeys (.string s)
  | array {arr : List (JsonbValue F)} (h : ∀ v ∈ arr, UniqueKeys v) : UniqueKeys (.array arr)
  | object {obj : List (String × JsonbValue F)} (unique : (obj.map Prod.fst).Nodup)
      (h : ∀ entry ∈ obj, UniqueKeys entry.2) : UniqueKeys (.object obj)

/-- An induction over a value knows the motive of every element and of every member. -/
theorem memberwise {motive : JsonbValue F → Prop} (hnull : motive .null)
    (hbool : ∀ b, motive (.bool b)) (hnumber : ∀ n, motive (.number n))
    (hstring : ∀ s, motive (.string s))
    (harray : ∀ arr, (∀ v ∈ arr, motive v) → motive (.array arr))
    (hobject : ∀ obj, (∀ entry ∈ obj, motive entry.2) → motive (.object obj))
    (json : JsonbValue F) : motive json := by
  refine @JsonbValue.rec F motive (fun arr => ∀ v ∈ arr, motive v)
    (fun obj => ∀ entry ∈ obj, motive entry.2) (fun entry => motive entry.2)
    hnull hbool hnumber hstring harray hobject ?_ ?_ ?_ ?_ ?_ json
  · simp
  · intro v arr hv harr
    exact List.forall_mem_cons.mpr ⟨hv, harr⟩
  · simp
  · intro entry obj hentry hobj
    exact List.forall_mem_cons.mpr ⟨hentry, hobj⟩
  · intro k v hv
    exact hv

/-- Under unique keys the first member under a key is the only one. -/
theorem find?_eq_some_of_mem {obj : List (String × JsonbValue F)}
    (unique : (obj.map Prod.fst).Nodup) {entry : String × JsonbValue F} (h : entry ∈ obj) :
    (obj.find? fun other => other.1 = entry.1) = some entry := by
  induction obj with
  | nil => cases h
  | cons head obj ih =>
      rw [List.map_cons, List.nodup_cons] at unique
      rcases List.mem_cons.mp h with rfl | hmem
      · exact List.find?_cons_of_pos (by simp)
      · have hne : head.1 ≠ entry.1 := fun heq =>
          unique.1 (List.mem_map.mpr ⟨entry, hmem, heq.symm⟩)
        rw [List.find?_cons_of_neg (by simpa using hne)]
        exact ih unique.2 hmem

variable [SerdeJson F N]

theorem jsonbContains_refl {a : JsonbValue F} (h : UniqueKeys a) :
    jsonbContains a a = true := by
  induction h with
  | null | bool | number | string => simp [jsonbContains]
  | array h ih =>
      rw [jsonbContains, containsElements_iff]
      intro v hv
      exact ⟨v, hv, ih v hv⟩
  | object unique h ih =>
      rw [jsonbContains, containsEntries_iff]
      intro entry hentry
      exact ⟨entry, find?_eq_some_of_mem unique hentry, ih entry hentry⟩

variable [LawfulSerdeJson F N]

theorem kind_eq_of_jsonbContains {a b : JsonbValue F} (h : jsonbContains a b = true) :
    kind a = kind b := by
  revert h
  fun_cases jsonbContains a b with
  | case1 a b => exact fun _ => rfl
  | case2 a b => exact fun _ => rfl
  | case3 a b => exact fun h => kind_eq_of_toStringPretty_eq (beq_iff_eq.mp h)

/-- Where the last of three values is a scalar, all three print the same. -/
theorem jsonbContains_trans_scalar {a b c : JsonbValue F} (hobject : kind c ≠ .object)
    (harray : kind c ≠ .array) (hab : jsonbContains a b = true) (hbc : jsonbContains b c = true) :
    jsonbContains a c = true := by
  have hkind := kind_eq_of_jsonbContains hbc
  rw [jsonbContains_eq_beq (fun _ => hkind ▸ hobject) (fun _ => hkind ▸ harray),
    beq_iff_eq] at hab
  rw [jsonbContains_eq_beq (fun _ => hobject) (fun _ => harray), beq_iff_eq] at hbc ⊢
  exact hab.trans hbc

theorem jsonbContains_trans {a b c : JsonbValue F} (hab : jsonbContains a b = true)
    (hbc : jsonbContains b c = true) : jsonbContains a c = true := by
  induction c using memberwise generalizing a b with
  | hnull | hbool | hnumber | hstring =>
      exact jsonbContains_trans_scalar (by simp [kind]) (by simp [kind]) hab hbc
  | harray arr ih =>
      have hb := kind_eq_of_jsonbContains hbc
      have ha := (kind_eq_of_jsonbContains hab).trans hb
      cases b <;> cases hb
      cases a <;> cases ha
      rw [jsonbContains, containsElements_iff] at hab hbc ⊢
      intro v hv
      obtain ⟨bv, hbv, hbound⟩ := hbc v hv
      obtain ⟨av, hav, habove⟩ := hab bv hbv
      exact ⟨av, hav, ih v hv habove hbound⟩
  | hobject obj ih =>
      have hb := kind_eq_of_jsonbContains hbc
      have ha := (kind_eq_of_jsonbContains hab).trans hb
      cases b <;> cases hb
      cases a <;> cases ha
      rw [jsonbContains, containsEntries_iff] at hab hbc ⊢
      intro entry hentry
      obtain ⟨lower, hlower, hbound⟩ := hbc entry hentry
      obtain ⟨upper, hupper, habove⟩ := hab lower (List.mem_of_find?_eq_some hlower)
      have hkey : lower.1 = entry.1 := by simpa using List.find?_some hlower
      rw [hkey] at hupper
      exact ⟨upper, hupper, ih entry hentry habove hbound⟩

/-- A value whose objects have unique keys. -/
structure Document (F : Type) where
  value : JsonbValue F
  unique : UniqueKeys value

instance : Preorder (Document F) where
  le a b := jsonbContainedBy a.value b.value = true
  le_refl a := jsonbContains_refl a.unique
  le_trans _ _ _ hab hbc := jsonbContains_trans hbc hab

/-- Transitivity does not need unique keys. -/
theorem jsonb_contains_preorder :
    (∀ a : JsonbValue F, UniqueKeys a → jsonbContains a a = true) ∧
      ∀ a b c : JsonbValue F, jsonbContains a b = true → jsonbContains b c = true →
        jsonbContains a c = true :=
  ⟨fun _ h => jsonbContains_refl h, fun _ _ _ hab hbc => jsonbContains_trans hab hbc⟩

end Preorder

section Sample

/-- The floats are the whole numbers below 10; `none` is `Number::from(0)`. -/
def printNumber : Option (Fin 10) → List Char
  | none => ['0']
  | some n => [Char.ofNat (48 + n.val), '.', '0']

/-- No character of the sample needs an escape. -/
def printString (s : String) : List Char :=
  Char.ofNat 34 :: (s.toList ++ [Char.ofNat 34])

def lineBreak (indent : Nat) : List Char := Char.ofNat 10 :: List.replicate (2 * indent) ' '

mutual

def printValue (indent : Nat) : JsonValue (Option (Fin 10)) → List Char
  | .null => ['n', 'u', 'l', 'l']
  | .bool true => ['t', 'r', 'u', 'e']
  | .bool false => ['f', 'a', 'l', 's', 'e']
  | .number n => printNumber n
  | .string s => printString s
  | .array arr =>
      '[' :: (printElements (indent + 1) [] arr ++
        (if arr.isEmpty then [] else lineBreak indent) ++ [']'])
  | .object map =>
      '{' :: (printEntries (indent + 1) [] map ++
        (if map.isEmpty then [] else lineBreak indent) ++ ['}'])

def printElements (indent : Nat) : List Char → List (JsonValue (Option (Fin 10))) → List Char
  | _, [] => []
  | comma, v :: arr =>
      comma ++ lineBreak indent ++ printValue indent v ++ printElements indent [','] arr

def printEntries (indent : Nat) :
    List Char → List (String × JsonValue (Option (Fin 10))) → List Char
  | _, [] => []
  | comma, (k, v) :: map =>
      comma ++ lineBreak indent ++ printString k ++ [':', ' '] ++ printValue indent v ++
        printEntries indent [','] map

end

/-- The first character of a print tells the kind. -/
def kindOf (c : Char) : Kind :=
  if c = 'n' then .null
  else if c = 't' ∨ c = 'f' then .bool
  else if c = Char.ofNat 34 then .string
  else if c = '[' then .array
  else if c = '{' then .object
  else .number

theorem kindOf_printNumber (n : Option (Fin 10)) :
    (printNumber n).head?.map kindOf = some .number := by
  cases n with
  | none => rfl
  | some n =>
      revert n
      decide

theorem kindOf_printValue (v : JsonValue (Option (Fin 10))) :
    (printValue 0 v).head?.map kindOf = some v.kind := by
  cases v with
  | bool b => cases b <;> simp [printValue, kindOf, JsonValue.kind]
  | number n =>
      rw [printValue, JsonValue.kind]
      exact kindOf_printNumber n
  | _ => simp [printValue, printString, kindOf, JsonValue.kind]

@[reducible]
def samplePrinter : SerdeJson (Fin 10) (Option (Fin 10)) where
  fromF64 := some ∘ some
  zero := none
  print v := some (String.ofList (printValue 0 v))

attribute [local instance] samplePrinter

theorem samplePrinter_lawful : LawfulSerdeJson (Fin 10) (Option (Fin 10)) where
  isSome_print _ := rfl
  kind_eq_of_print_eq {u v} h := by
    have htext : printValue 0 u = printValue 0 v := String.ofList_injective (Option.some.inj h)
    have hkind := kindOf_printValue u
    rw [htext, kindOf_printValue v] at hkind
    exact (Option.some.inj hkind).symm

/-- `{"name": "x", "tags": [1.0, [2.0, 3.0], {}]}`. -/
def upper : JsonbValue (Fin 10) :=
  .object [("name", .string "x"),
    ("tags", .array [.number 1, .array [.number 2, .number 3], .object []])]

/-- `{"tags": [{}, [2.0], 1.0]}`. -/
def middle : JsonbValue (Fin 10) :=
  .object [("tags", .array [.object [], .array [.number 2], .number 1])]

/-- `{"tags": [[2.0], [2.0]]}`. -/
def lower : JsonbValue (Fin 10) :=
  .object [("tags", .array [.array [.number 2], .array [.number 2]])]

theorem uniqueKeys_upper : UniqueKeys upper := by
  refine .object (by decide) (List.forall_mem_cons.mpr ⟨.string _, ?_⟩)
  refine List.forall_mem_singleton.mpr (.array ?_)
  refine List.forall_mem_cons.mpr ⟨.number _, List.forall_mem_cons.mpr ⟨.array ?_, ?_⟩⟩
  · simp [UniqueKeys.number]
  · exact List.forall_mem_singleton.mpr (.object List.nodup_nil (by simp))

theorem sampleDocuments_contained :
    jsonbContains upper upper = true ∧ jsonbContains upper middle = true ∧
      jsonbContains middle lower = true ∧ jsonbContains upper lower = true := by
  have := samplePrinter_lawful
  have hpreorder := jsonb_contains_preorder (F := Fin 10) (N := Option (Fin 10))
  have hum : jsonbContains upper middle = true := by decide +kernel
  have hml : jsonbContains middle lower = true := by decide +kernel
  exact ⟨hpreorder.1 upper uniqueKeys_upper, hum, hml, hpreorder.2 upper middle lower hum hml⟩

end Sample

end PostgressRs.Types.JsonbContainment
