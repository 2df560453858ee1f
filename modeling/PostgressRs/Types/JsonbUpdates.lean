import PostgressRs.Lib.Lenses
import PostgressRs.Types.Jsonb

/-!
What `jsonb_set` changes and what it leaves.
-/

namespace PostgressRs.Types.JsonbUpdates

open PostgressRs.Lib.Lenses
open PostgressRs.Types.Jsonb

variable {F : Type}

section Foci

/-- The element of an array that a step names. -/
def element (first : String) : Focus (List (JsonbValue F)) (JsonbValue F) :=
  ((parseStep first).map Focus.nth).getD Focus.missing

theorem element_of_parseStep {first : String} {idx : Nat} (h : parseStep first = some idx) :
    (element first : Focus (List (JsonbValue F)) _) = Focus.nth idx := by
  rw [element, h, Option.map_some, Option.getD_some]

theorem element_get_eq_some_iff {first : String} {arr : List (JsonbValue F)} {v : JsonbValue F} :
    (element first).get arr = some v ↔ ∃ idx, parseStep first = some idx ∧ arr[idx]? = some v := by
  constructor
  · intro h
    rw [element] at h
    cases hidx : parseStep first with
    | none =>
        rw [hidx] at h
        cases h
    | some idx =>
        rw [hidx] at h
        exact ⟨idx, rfl, h⟩
  · rintro ⟨idx, hidx, hget⟩
    rw [element_of_parseStep hidx]
    exact hget

/-- The value under one step. -/
def step (first : String) : Focus (JsonbValue F) (JsonbValue F) where
  get
    | .object obj => (Focus.entryAt first).get obj
    | .array arr => (element first).get arr
    | _ => none
  alter f
    | .object obj => .object ((Focus.entryAt first).alter f obj)
    | .array arr => .array ((element first).alter f arr)
    | json => json
  get_alter f json := by
    cases json with
    | object obj => exact (Focus.entryAt first).get_alter f obj
    | array arr => exact (element first).get_alter f arr
    | _ => rfl
  alter_id json := by
    cases json with
    | object obj => exact congrArg JsonbValue.object ((Focus.entryAt first).alter_id obj)
    | array arr => exact congrArg JsonbValue.array ((element first).alter_id arr)
    | _ => rfl
  alter_alter f g json := by
    cases json with
    | object obj => exact congrArg JsonbValue.object ((Focus.entryAt first).alter_alter f g obj)
    | array arr => exact congrArg JsonbValue.array ((element first).alter_alter f g arr)
    | _ => rfl
  alter_congr f g json h := by
    cases json with
    | object obj => exact congrArg JsonbValue.object ((Focus.entryAt first).alter_congr f g obj h)
    | array arr => exact congrArg JsonbValue.array ((element first).alter_congr f g arr h)
    | _ => rfl

def focus : List String → Focus (JsonbValue F) (JsonbValue F)
  | [] => Focus.whole
  | first :: rest => (step first).comp (focus rest)

theorem jsonbPath_cons (json : JsonbValue F) (first : String) (rest : List String) :
    jsonbPath json (first :: rest) = ((step first).get json).bind fun v => jsonbPath v rest := by
  cases json with
  | object obj =>
      show _ = ((obj.find? _).map Prod.snd).bind _
      rw [Option.bind_map]
      rfl
  | array arr =>
      show (parseStep first).bind _ = ((element first).get arr).bind _
      rw [element]
      cases parseStep first with
      | none => rfl
      | some idx => rfl
  | _ => rfl

theorem jsonbPath_eq_get (json : JsonbValue F) (path : List String) :
    jsonbPath json path = (focus path).get json := by
  induction path generalizing json with
  | nil => rw [jsonbPath, focus, Focus.whole_get]
  | cons first rest ih =>
      rw [jsonbPath_cons, focus, Focus.comp_get]
      exact congrArg _ (funext ih)

end Foci

section Updates

variable {json x newVal : JsonbValue F} {first : String} {path rest : List String}

theorem ite_isEmpty (v newVal : JsonbValue F) (rest : List String) :
    (if rest.isEmpty then newVal else jsonbSet v rest newVal) = jsonbSet v rest newVal := by
  cases rest with
  | nil => rw [List.isEmpty_nil, if_pos rfl, jsonbSet]
  | cons first rest => rw [List.isEmpty_cons, if_neg Bool.false_ne_true]

/-- Where the step leads to a value, only that value is replaced. -/
theorem jsonbSet_cons {v : JsonbValue F} (h : (step first).get json = some v) :
    jsonbSet json (first :: rest) newVal =
      (step first).alter (fun v => jsonbSet v rest newVal) json := by
  cases json with
  | object obj =>
      obtain ⟨pos, hpos⟩ := Focus.exists_findIdx?_of_getEntry h
      simp only [jsonbSet, hpos, ite_isEmpty]
      exact congrArg JsonbValue.object
        (Focus.alterEntry_eq_modify hpos fun v => jsonbSet v rest newVal).symm
  | array arr =>
      obtain ⟨idx, hidx, hget⟩ := element_get_eq_some_iff.mp h
      have hlt : idx < arr.length := (List.getElem?_eq_some_iff.mp hget).1
      simp only [jsonbSet, hidx, Option.getD_some, if_pos hlt, ite_isEmpty]
      exact congrArg JsonbValue.array (by rw [element_of_parseStep hidx]; rfl)
  | _ => cases h

theorem jsonbSet_eq_put (h : (focus path).get json = some x) :
    jsonbSet json path newVal = (focus path).put newVal json := by
  induction path generalizing json with
  | nil => rfl
  | cons first rest ih =>
      obtain ⟨v, hstep, hrest⟩ := Option.bind_eq_some_iff.mp h
      rw [jsonbSet_cons hstep, focus, Focus.comp_put]
      apply (step first).alter_congr
      intro v' hv'
      rw [hstep, Option.some.injEq] at hv'
      exact ih (hv' ▸ hrest)

end Updates

section Frame

/-- Two paths leave each other at an object under different keys or at an array under
different indices.  The steps before lead to the same value, but may write an index
differently. -/
inductive Leaves : JsonbValue F → List String → List String → Prop
  | key {obj : List (String × JsonbValue F)} {first first' : String} {rest rest' : List String}
      (hkey : first ≠ first') : Leaves (.object obj) (first :: rest) (first' :: rest')
  | index {arr : List (JsonbValue F)} {first first' : String} {rest rest' : List String}
      (hidx : parseStep first ≠ parseStep first') :
      Leaves (.array arr) (first :: rest) (first' :: rest')
  | underKey {obj : List (String × JsonbValue F)} {v : JsonbValue F} {first : String}
      {rest rest' : List String} (hget : jsonbPath (.object obj) [first] = some v)
      (h : Leaves v rest rest') : Leaves (.object obj) (first :: rest) (first :: rest')
  | underIndex {arr : List (JsonbValue F)} {v : JsonbValue F} {first first' : String}
      {rest rest' : List String} (hidx : parseStep first = parseStep first')
      (hget : jsonbPath (.array arr) [first] = some v) (h : Leaves v rest rest') :
      Leaves (.array arr) (first :: rest) (first' :: rest')

theorem element_congr {first first' : String} (h : parseStep first = parseStep first') :
    (element first : Focus (List (JsonbValue F)) _) = element first' := by
  rw [element, element, h]

theorem element_apart {first first' : String} (h : parseStep first ≠ parseStep first')
    (arr : List (JsonbValue F)) : Focus.ApartAt (element first) (element first') arr := by
  intro f
  rw [element, element]
  cases hfirst : parseStep first with
  | none => rfl
  | some idx =>
      cases hfirst' : parseStep first' with
      | none => rfl
      | some idx' =>
          have hne : idx ≠ idx' := fun heq => h (by rw [hfirst, hfirst', heq])
          exact Focus.nth_apart hne arr f

theorem jsonbPath_singleton (json : JsonbValue F) (first : String) :
    jsonbPath json [first] = (step first).get json := by
  rw [jsonbPath_eq_get, focus, Focus.comp_get]
  exact Option.bind_fun_some _

/-- What is under the one path is not seen under the other. -/
theorem Leaves.apartAt {json : JsonbValue F} {path path' : List String}
    (h : Leaves json path path') : Focus.ApartAt (focus path) (focus path') json := by
  induction h with
  | key hkey =>
      refine Focus.ApartAt.comp ?_ _ _
      intro f
      exact Focus.entryAt_apart hkey _ f
  | index hidx =>
      refine Focus.ApartAt.comp ?_ _ _
      intro f
      exact element_apart hidx _ f
  | underKey hget h ih =>
      rw [jsonbPath_singleton] at hget
      exact ih.inside hget
  | underIndex hidx hget h ih =>
      rw [jsonbPath_singleton] at hget
      rename_i arr v first first' rest rest'
      have hinside :
          Focus.ApartAt ((element first).comp (focus rest)) ((element first').comp (focus rest'))
            arr := by
        rw [← element_congr hidx]
        exact ih.inside hget
      exact fun f => hinside f

/-- Reading what was set gives it back, other places are left, and the last value set is
the one that stays. -/
theorem jsonb_set_lawful {json x : JsonbValue F} {path : List String}
    (h : jsonbPath json path = some x) (newVal newVal' : JsonbValue F) :
    jsonbPath (jsonbSet json path newVal) path = some newVal ∧
      (∀ path', Leaves json path path' →
        jsonbPath (jsonbSet json path newVal) path' = jsonbPath json path') ∧
      jsonbSet (jsonbSet json path newVal) path newVal' = jsonbSet json path newVal' := by
  rw [jsonbPath_eq_get] at h
  have hread := Focus.get_put h newVal
  refine ⟨?_, ?_, ?_⟩
  · rw [jsonbPath_eq_get, jsonbSet_eq_put h, hread]
  · intro path' hleaves
    rw [jsonbPath_eq_get, jsonbPath_eq_get, jsonbSet_eq_put h, hleaves.apartAt.get_put]
  · rw [jsonbSet_eq_put h, jsonbSet_eq_put hread, jsonbSet_eq_put h, Focus.put_put]

theorem jsonb_set_lawful_element :
    jsonbPath (jsonbSet (.array [.null, .bool true]) ["1"] (.number 2)) ["1"] =
        some (.number 2 : JsonbValue Nat) ∧
      (∀ path', Leaves (.array [.null, .bool true] : JsonbValue Nat) ["1"] path' →
        jsonbPath (jsonbSet (.array [.null, .bool true]) ["1"] (.number 2)) path' =
          jsonbPath (.array [.null, .bool true]) path') ∧
      jsonbSet (jsonbSet (.array [.null, .bool true]) ["1"] (.number 2)) ["1"] .null =
        jsonbSet (.array [.null, .bool true]) ["1"] .null :=
  jsonb_set_lawful (x := .bool true) rfl (.number 2) .null

end Frame

end PostgressRs.Types.JsonbUpdates
