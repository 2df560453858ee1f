import PostgressRs.Types.JsonbUpdates

/-!
What `jsonb_delete` removes: only what the path names, where every step reads as the code
reads it.
-/

namespace PostgressRs.Types.JsonbDeletion

open PostgressRs.Lib.Lenses
open PostgressRs.Server.Queries
open PostgressRs.Types.Jsonb
open PostgressRs.Types.JsonbUpdates

variable {F : Type}

section Deletions

/-- The keys of every object are unique, and every array fits in a `Vec`. -/
inductive WellFormed : JsonbValue F → Prop
  | null : WellFormed .null
  | bool (b : Bool) : WellFormed (.bool b)
  | number (n : F) : WellFormed (.number n)
  | string (s : String) : WellFormed (.string s)
  | array {arr : List (JsonbValue F)} (fits : arr.length < 2 ^ 63)
      (h : ∀ v ∈ arr, WellFormed v) : WellFormed (.array arr)
  | object {obj : List (String × JsonbValue F)} (unique : (obj.map Prod.fst).Nodup)
      (h : ∀ entry ∈ obj, WellFormed entry.2) : WellFormed (.object obj)

/-- One member of an object or one element of an array is removed, and everything around it
stays. -/
inductive Removed : JsonbValue F → List String → JsonbValue F → Prop
  | member (before after : List (String × JsonbValue F)) (first : String) (v : JsonbValue F) :
      Removed (.object (before ++ (first, v) :: after)) [first] (.object (before ++ after))
  | element (before after : List (JsonbValue F)) {first : String} (v : JsonbValue F)
      (hidx : parseStep first = some before.length) :
      Removed (.array (before ++ v :: after)) [first] (.array (before ++ after))
  | under {json v v' : JsonbValue F} {first : String} {rest : List String}
      (hget : (step first).get json = some v) (h : Removed v rest v') :
      Removed json (first :: rest) ((step first).put v' json)

/-- Nothing changes where the path leads nowhere, else what the path names is removed. -/
def DeletesOnly (json : JsonbValue F) (path : List String) : Prop :=
  (jsonbPath json path = none → jsonbDelete json path = json) ∧
    ∀ x, jsonbPath json path = some x → Removed json path (jsonbDelete json path)

/-- The last step at an array is a number, or there is nothing to remove.  A step before it
is written as the code prints the index, or the path leads nowhere. -/
def ReadsAlike : JsonbValue F → List String → Prop
  | _, [] => True
  | .object obj, first :: rest =>
      ∀ v, jsonbPath (.object obj) [first] = some v → ReadsAlike v rest
  | .array arr, first :: rest =>
      (rest = [] → arr = [] ∨ (parseStep first).isSome) ∧
        (rest ≠ [] → ∀ idx v, parseStep first = some idx → arr[idx]? = some v →
          if toString idx = first then ReadsAlike v rest else jsonbPath v rest = none)
  | _, _ :: _ => True

end Deletions

section Indices

theorem parseUsize_toDigits {n : Nat} (h : n < 2 ^ 64) :
    parseUsize (Nat.toDigits 10 n) = some n := by
  have hdigits : ∀ c ∈ Nat.toDigits 10 n, c.isDigit = true := fun c hc =>
    Nat.isDigit_of_mem_toDigits (by decide) (by decide) hc
  have hvalue : (Nat.toDigits 10 n).foldl (fun acc c => acc * 10 + (c.toNat - 48)) 0 = n := by
    have hstep : (fun (acc : Nat) (c : Char) => acc * 10 + (c.toNat - 48)) =
        fun acc c => 10 * acc + (c.toNat - '0'.toNat) := by
      funext acc c
      rw [Nat.mul_comm]
      rfl
    rw [hstep, ← Nat.ofDigitChars_eq_foldl, Nat.ofDigitChars_ten_toDigits]
  have hne : Nat.toDigits 10 n ≠ [] := Nat.toDigits_ne_nil
  generalize Nat.toDigits 10 n = chars at hdigits hvalue hne
  cases chars with
  | nil => exact absurd rfl hne
  | cons c chars =>
      have hplus : c ≠ '+' := by
        rintro rfl
        exact absurd (hdigits '+' List.mem_cons_self) (by decide)
      rw [parseUsize]
      · show (if _ then if _ then some _ else none else none) = _
        rw [if_pos ⟨hne, List.all_eq_true.mpr hdigits⟩, hvalue, if_pos h]
      · intro rest heq
        exact hplus (List.cons.inj heq).1

/-- A printed index is parsed back. -/
theorem parseStep_toString {n : Nat} (h : n < 2 ^ 64) : parseStep (toString n) = some n := by
  show parseUsize n.repr.toList = some n
  rw [Nat.toList_repr, parseUsize_toDigits h]

theorem toString_eq_iff {first : String} {n idx : Nat} (h : n < 2 ^ 64)
    (hidx : parseStep first = some idx) :
    toString n = first ↔ n = idx ∧ toString idx = first := by
  constructor
  · rintro rfl
    rw [parseStep_toString h, Option.some.injEq] at hidx
    exact ⟨hidx, by rw [hidx]⟩
  · rintro ⟨rfl, heq⟩
    exact heq

variable {arr : List (JsonbValue F)} {first : String} {f : JsonbValue F → JsonbValue F}

/-- No printed index is the step. -/
theorem mapIdx_of_ne (h : ∀ i < arr.length, toString i ≠ first) :
    (arr.mapIdx fun i v => if toString i = first then f v else v) = arr := by
  apply List.ext_getElem?
  intro i
  rw [List.getElem?_mapIdx]
  cases hv : arr[i]? with
  | none => rfl
  | some v => rw [Option.map_some, if_neg (h i (List.getElem?_eq_some_iff.mp hv).1)]

/-- The element whose index is printed as the step is changed. -/
theorem mapIdx_of_toString {idx : Nat} (fits : arr.length < 2 ^ 63)
    (hidx : parseStep first = some idx) (heq : toString idx = first) :
    (arr.mapIdx fun i v => if toString i = first then f v else v) = arr.modify idx f := by
  apply List.ext_getElem?
  intro i
  rw [List.getElem?_mapIdx]
  by_cases hi : idx = i
  · subst hi
    rw [List.getElem?_modify_eq]
    exact Option.map_congr fun v _ => if_pos heq
  · rw [List.getElem?_modify_ne f arr hi]
    cases hv : arr[i]? with
    | none => rfl
    | some v =>
        have hlt : i < 2 ^ 64 := by
          have := (List.getElem?_eq_some_iff.mp hv).1
          omega
        rw [Option.map_some, if_neg fun h => hi ((toString_eq_iff hlt hidx).mp h).1.symm]

end Indices

section Steps

variable {json v : JsonbValue F} {first : String} {rest : List String}

theorem jsonbPath_none (h : (step first).get json = none) :
    jsonbPath json (first :: rest) = none := by
  rw [jsonbPath_cons, h, Option.bind_none]

theorem jsonbPath_some (h : (step first).get json = some v) :
    jsonbPath json (first :: rest) = jsonbPath v rest := by
  rw [jsonbPath_cons, h, Option.bind_some]

theorem deletesOnly_missing (h : (step first).get json = none)
    (hdelete : jsonbDelete json (first :: rest) = json) : DeletesOnly json (first :: rest) := by
  refine ⟨fun _ => hdelete, ?_⟩
  intro x hx
  rw [jsonbPath_none h] at hx
  cases hx

theorem deletesOnly_last (h : (step first).get json = some v)
    (hremoved : Removed json [first] (jsonbDelete json [first])) : DeletesOnly json [first] := by
  refine ⟨?_, fun _ _ => hremoved⟩
  intro hnone
  rw [jsonbPath_some h, jsonbPath] at hnone
  cases hnone

theorem Removed.under_inv {json' : JsonbValue F} (h : Removed json (first :: rest) json')
    (hrest : rest ≠ []) :
    ∃ v v', (step first).get json = some v ∧ Removed v rest v' ∧
      json' = (step first).put v' json := by
  cases h with
  | member => exact absurd rfl hrest
  | element => exact absurd rfl hrest
  | under hget h => exact ⟨_, _, hget, h, rfl⟩

/-- A removal changes the value. -/
theorem Removed.ne {json' : JsonbValue F} {path : List String} (h : Removed json path json') :
    json' ≠ json := by
  induction h with
  | member before after first v =>
      intro heq
      have hlen := congrArg List.length (JsonbValue.object.inj heq)
      rw [List.length_append, List.length_append, List.length_cons] at hlen
      omega
  | element before after v hidx =>
      intro heq
      have hlen := congrArg List.length (JsonbValue.array.inj heq)
      rw [List.length_append, List.length_append, List.length_cons] at hlen
      omega
  | under hget h ih =>
      intro heq
      rw [← Focus.put_get hget, Focus.put_put] at heq
      exact ih ((Focus.put_inj hget).mp heq)

/-- A step that both read alike says the same about the value under it. -/
theorem deletesOnly_under (hget : (step first).get json = some v) (hrest : rest ≠ [])
    (hdelete : jsonbDelete json (first :: rest) =
      (step first).alter (fun v => jsonbDelete v rest) json) :
    DeletesOnly json (first :: rest) ↔ DeletesOnly v rest := by
  have hput : jsonbDelete json (first :: rest) = (step first).put (jsonbDelete v rest) json :=
    hdelete.trans (Focus.alter_eq_put hget _)
  have hkept : jsonbDelete json (first :: rest) = json ↔ jsonbDelete v rest = v := by
    rw [hput]
    conv_lhs => rhs; rw [← Focus.put_get hget]
    exact Focus.put_inj hget
  have hremoved : Removed json (first :: rest) (jsonbDelete json (first :: rest)) ↔
      Removed v rest (jsonbDelete v rest) := by
    constructor
    · intro h
      obtain ⟨w, w', hw, hremoved, heq⟩ := h.under_inv hrest
      rw [hget, Option.some.injEq] at hw
      rw [hput] at heq
      rw [(Focus.put_inj hget).mp heq, hw]
      exact hremoved
    · intro h
      rw [hput]
      exact .under hget h
  rw [DeletesOnly, DeletesOnly, jsonbPath_some hget, hkept, hremoved]

/-- A step that only the path follows removes nothing. -/
theorem deletesOnly_of_kept (hget : (step first).get json = some v)
    (hdelete : jsonbDelete json (first :: rest) = json) :
    DeletesOnly json (first :: rest) ↔ jsonbPath v rest = none := by
  rw [DeletesOnly, jsonbPath_some hget, hdelete]
  constructor
  · rintro ⟨-, hremoved⟩
    by_contra hsome
    obtain ⟨x, hx⟩ := Option.ne_none_iff_exists'.mp hsome
    exact (hremoved x hx).ne rfl
  · intro hnone
    refine ⟨fun _ => rfl, ?_⟩
    intro x hx
    cases hnone.symm.trans hx

end Steps

section Objects

variable {obj : List (String × JsonbValue F)} {first : String} {rest : List String}

theorem filter_of_append {before after : List (String × JsonbValue F)} {v : JsonbValue F}
    (unique : ((before ++ (first, v) :: after).map Prod.fst).Nodup) :
    (before ++ (first, v) :: after).filter (fun entry => entry.1 ≠ first) = before ++ after := by
  rw [List.map_append, List.map_cons, List.nodup_append] at unique
  obtain ⟨-, hafter, hbefore⟩ := unique
  have hbefore' : ∀ entry ∈ before, decide (entry.1 ≠ first) = true := fun entry hmem =>
    decide_eq_true (hbefore _ (List.mem_map_of_mem hmem) _ List.mem_cons_self)
  have hafter' : ∀ entry ∈ after, decide (entry.1 ≠ first) = true := fun entry hmem =>
    decide_eq_true fun heq =>
      (List.nodup_cons.mp hafter).1 (List.mem_map.mpr ⟨entry, hmem, heq⟩)
  rw [List.filter_append, List.filter_eq_self.mpr hbefore', List.filter_cons_of_neg (by simp),
    List.filter_eq_self.mpr hafter']

/-- The member that the last step names is the only one under its key. -/
theorem deletesOnly_member (unique : (obj.map Prod.fst).Nodup) :
    DeletesOnly (.object obj) [first] := by
  have hdelete : jsonbDelete (.object obj) [first] =
      .object (obj.filter fun entry => entry.1 ≠ first) := rfl
  cases hget : (step first).get (.object obj) with
  | none =>
      have hkeys := Focus.notMem_of_getEntry hget
      refine deletesOnly_missing hget ?_
      rw [hdelete, List.filter_eq_self.mpr fun entry hmem => decide_eq_true (hkeys entry hmem)]
  | some v =>
      obtain ⟨before, after, rfl⟩ := Focus.eq_append_of_getEntry hget
      have hremoved := Removed.member before after first v
      rw [← filter_of_append unique] at hremoved
      exact deletesOnly_last hget hremoved

theorem jsonbDelete_object (unique : (obj.map Prod.fst).Nodup) (hrest : rest ≠ []) :
    jsonbDelete (.object obj) (first :: rest) =
      (step first).alter (fun v => jsonbDelete v rest) (.object obj) := by
  rw [jsonbDelete, if_neg (by simpa using hrest)]
  exact congrArg JsonbValue.object
    (Focus.alterEntry_eq_map unique fun v => jsonbDelete v rest).symm

end Objects

section Arrays

variable {arr : List (JsonbValue F)} {first : String} {rest : List String}

theorem map_filter_zipIdx {α : Type} (l : List α) (start idx : Nat) :
    ((l.zipIdx start).filter fun element => element.2 ≠ start + idx).map Prod.fst =
      l.eraseIdx idx := by
  induction l generalizing start idx with
  | nil => rfl
  | cons a l ih =>
      rw [List.zipIdx_cons]
      cases idx with
      | zero =>
          have hkept : ∀ element ∈ l.zipIdx (start + 1),
              decide (element.2 ≠ start + 0) = true := by
            intro element hmem
            have hle := (List.mem_zipIdx hmem).1
            exact decide_eq_true (by omega)
          rw [List.filter_cons_of_neg (by simp), List.filter_eq_self.mpr hkept,
            List.zipIdx_map_fst, List.eraseIdx_cons_zero]
      | succ idx =>
          rw [List.filter_cons_of_pos (by simp), List.map_cons, List.eraseIdx_cons_succ,
            ← ih (start + 1) idx, Nat.add_right_comm start 1 idx, Nat.add_assoc start idx 1]

theorem jsonbDelete_element :
    jsonbDelete (.array arr) [first] = .array (arr.eraseIdx ((parseStep first).getD 0)) := by
  have herase := map_filter_zipIdx arr 0 ((parseStep first).getD 0)
  rw [Nat.zero_add] at herase
  exact congrArg JsonbValue.array herase

/-- A last step that is no number removes the element 0. -/
theorem deletesOnly_element :
    DeletesOnly (.array arr) [first] ↔ arr = [] ∨ (parseStep first).isSome := by
  cases hidx : parseStep first with
  | none =>
      have hget : (step first).get (.array arr) = none := by
        show (element first).get arr = none
        rw [element, hidx]
        rfl
      have hdelete : jsonbDelete (.array arr) [first] = .array (arr.eraseIdx 0) := by
        rw [jsonbDelete_element, hidx, Option.getD_none]
      have hself : arr.eraseIdx 0 = arr ↔ arr = [] := by
        rw [List.eraseIdx_eq_self, Nat.le_zero, List.length_eq_zero_iff]
      constructor
      · rintro ⟨hkept, -⟩
        have heq := hdelete.symm.trans (hkept (jsonbPath_none hget))
        exact .inl (hself.mp (JsonbValue.array.inj heq))
      · rintro (hempty | hsome)
        · exact deletesOnly_missing hget (hdelete.trans (congrArg _ (hself.mpr hempty)))
        · cases hsome
  | some idx =>
      refine iff_of_true ?_ (.inr rfl)
      have hdelete : jsonbDelete (.array arr) [first] = .array (arr.eraseIdx idx) := by
        rw [jsonbDelete_element, hidx, Option.getD_some]
      have hstep : (step first).get (.array arr) = arr[idx]? := by
        show (element first).get arr = _
        rw [element_of_parseStep hidx]
        rfl
      cases hv : arr[idx]? with
      | none =>
          have hle := List.getElem?_eq_none_iff.mp hv
          exact deletesOnly_missing (hstep.trans hv)
            (hdelete.trans (congrArg _ (List.eraseIdx_of_length_le hle)))
      | some v =>
          obtain ⟨hlt, hat⟩ := List.getElem?_eq_some_iff.mp hv
          have harr : arr.take idx ++ v :: arr.drop (idx + 1) = arr := by
            rw [← hat, List.getElem_cons_drop, List.take_append_drop]
          have hlen : (arr.take idx).length = idx := List.length_take_of_le (Nat.le_of_lt hlt)
          have hremoved := Removed.element (arr.take idx) (arr.drop (idx + 1)) v
            (hidx.trans (congrArg some hlen.symm))
          rw [harr, ← List.eraseIdx_eq_take_drop_succ, ← hdelete] at hremoved
          exact deletesOnly_last (hstep.trans hv) hremoved

/-- A step before the last is followed where it is the printed index. -/
theorem jsonbDelete_array {idx : Nat} (fits : arr.length < 2 ^ 63) (hrest : rest ≠ [])
    (hidx : parseStep first = some idx) (heq : toString idx = first) :
    jsonbDelete (.array arr) (first :: rest) =
      (step first).alter (fun v => jsonbDelete v rest) (.array arr) := by
  rw [jsonbDelete, if_neg (by simpa using hrest), mapIdx_of_toString fits hidx heq]
  show _ = JsonbValue.array ((element first).alter _ arr)
  rw [element_of_parseStep hidx]
  rfl

theorem jsonbDelete_array_of_ne (hrest : rest ≠ []) (h : ∀ i < arr.length, toString i ≠ first) :
    jsonbDelete (.array arr) (first :: rest) = .array arr := by
  rw [jsonbDelete, if_neg (by simpa using hrest), mapIdx_of_ne h]

end Arrays

section Reading

theorem WellFormed.of_step {json v : JsonbValue F} {first : String} (h : WellFormed json)
    (hget : (step first).get json = some v) : WellFormed v := by
  cases h with
  | array fits helements =>
      obtain ⟨idx, -, hv⟩ := element_get_eq_some_iff.mp hget
      exact helements v (List.mem_of_getElem? hv)
  | object unique hmembers =>
      obtain ⟨before, after, rfl⟩ := Focus.eq_append_of_getEntry hget
      exact hmembers (first, v) (List.mem_append_right _ List.mem_cons_self)
  | _ => cases hget

variable {obj : List (String × JsonbValue F)} {arr : List (JsonbValue F)} {v : JsonbValue F}
  {first : String} {rest : List String}

theorem readsAlike_object (hget : (step first).get (.object obj) = some v) :
    ReadsAlike (.object obj) (first :: rest) ↔ ReadsAlike v rest := by
  rw [ReadsAlike, jsonbPath_singleton, hget]
  constructor
  · intro h
    exact h v rfl
  · rintro h _ ⟨⟩
    exact h

theorem readsAlike_array {idx : Nat} (hrest : rest ≠ []) (hidx : parseStep first = some idx)
    (hv : arr[idx]? = some v) :
    ReadsAlike (.array arr) (first :: rest) ↔
      if toString idx = first then ReadsAlike v rest else jsonbPath v rest = none := by
  rw [ReadsAlike, hidx]
  constructor
  · rintro ⟨-, h⟩
    exact h hrest idx v rfl hv
  · intro h
    refine ⟨fun hempty => absurd hempty hrest, ?_⟩
    rintro _ _ v' ⟨⟩ hv'
    rw [hv, Option.some.injEq] at hv'
    exact hv' ▸ h

theorem printed_of_lt {i : Nat} (fits : arr.length < 2 ^ 63) (hi : i < arr.length)
    (h : toString i = first) : (step first).get (.array arr) = some arr[i] := by
  have hidx : parseStep first = some i := h ▸ parseStep_toString (by omega)
  exact element_get_eq_some_iff.mpr ⟨i, hidx, List.getElem?_eq_getElem hi⟩

/-- The step lemma at an object. -/
theorem deletesOnly_object (hwf : WellFormed (.object obj))
    (ih : ∀ v : JsonbValue F, WellFormed v → rest ≠ [] →
      (DeletesOnly v rest ↔ ReadsAlike v rest)) :
    DeletesOnly (.object obj) (first :: rest) ↔ ReadsAlike (.object obj) (first :: rest) := by
  have unique : (obj.map Prod.fst).Nodup := by
    cases hwf with
    | object unique _ => exact unique
  by_cases hrest : rest = []
  · subst hrest
    exact iff_of_true (deletesOnly_member unique) fun v _ => by rw [ReadsAlike]; trivial
  · have hdelete : jsonbDelete (.object obj) (first :: rest) =
        (step first).alter (fun v => jsonbDelete v rest) (.object obj) :=
      jsonbDelete_object unique hrest
    cases hget : (step first).get (.object obj) with
    | none =>
        refine iff_of_true (deletesOnly_missing hget ?_) ?_
        · rw [hdelete, Focus.alter_of_get_none hget]
        · intro v hv
          rw [jsonbPath_singleton, hget] at hv
          cases hv
    | some v =>
        rw [deletesOnly_under hget hrest hdelete, ih v (hwf.of_step hget) hrest,
          readsAlike_object hget]

/-- The step lemma at an array. -/
theorem deletesOnly_array (hwf : WellFormed (.array arr))
    (ih : ∀ v : JsonbValue F, WellFormed v → rest ≠ [] →
      (DeletesOnly v rest ↔ ReadsAlike v rest)) :
    DeletesOnly (.array arr) (first :: rest) ↔ ReadsAlike (.array arr) (first :: rest) := by
  have fits : arr.length < 2 ^ 63 := by
    cases hwf with
    | array fits _ => exact fits
  by_cases hrest : rest = []
  · subst hrest
    rw [deletesOnly_element, ReadsAlike]
    exact ⟨fun h => ⟨fun _ => h, fun hne => absurd rfl hne⟩, fun h => h.1 rfl⟩
  · cases hget : (step first).get (.array arr) with
    | none =>
        refine iff_of_true (deletesOnly_missing hget ?_) ?_
        · apply jsonbDelete_array_of_ne hrest
          intro i hi heq
          cases hget.symm.trans (printed_of_lt fits hi heq)
        · refine ⟨fun hempty => absurd hempty hrest, fun _ idx v hidx hv => ?_⟩
          cases hget.symm.trans (element_get_eq_some_iff.mpr ⟨idx, hidx, hv⟩)
    | some v =>
        obtain ⟨idx, hidx, hv⟩ := element_get_eq_some_iff.mp hget
        rw [readsAlike_array hrest hidx hv]
        by_cases heq : toString idx = first
        · rw [if_pos heq, deletesOnly_under hget hrest (jsonbDelete_array fits hrest hidx heq),
            ih v (hwf.of_step hget) hrest]
        · rw [if_neg heq]
          apply deletesOnly_of_kept hget
          apply jsonbDelete_array_of_ne hrest
          intro i hi hprinted
          exact heq ((toString_eq_iff (by omega) hidx).mp hprinted).2

end Reading

section Frame

/-- Of a value with unique keys nothing but what the path names is removed exactly if every
step at an array reads as the path reads it. -/
theorem jsonb_delete_iff {json : JsonbValue F} (hwf : WellFormed json) {path : List String}
    (hpath : path ≠ []) : DeletesOnly json path ↔ ReadsAlike json path := by
  induction path generalizing json with
  | nil => exact absurd rfl hpath
  | cons first rest ih =>
      cases json with
      | object obj => exact deletesOnly_object hwf fun _ hv hrest => ih hv hrest
      | array arr => exact deletesOnly_array hwf fun _ hv hrest => ih hv hrest
      | _ => exact iff_of_true (deletesOnly_missing rfl rfl) trivial

theorem jsonb_delete_iff_array :
    WellFormed (.array [.null, .bool true] : JsonbValue Nat) ∧ ["1"] ≠ ([] : List String) ∧
      (DeletesOnly (.array [.null, .bool true] : JsonbValue Nat) ["1"] ↔
        ReadsAlike (.array [.null, .bool true] : JsonbValue Nat) ["1"]) := by
  have hwf : WellFormed (.array [.null, .bool true] : JsonbValue Nat) := by
    refine .array (by decide) ?_
    intro v hv
    rcases List.mem_pair.mp hv with rfl | rfl
    · exact .null
    · exact .bool true
  have hne : ["1"] ≠ ([] : List String) := List.cons_ne_nil _ _
  exact ⟨hwf, hne, jsonb_delete_iff hwf hne⟩

/-- A step that is no number removes the element 0, and `01` is not followed. -/
theorem unread_step_breaks_frame :
    (jsonbPath (.array [.null] : JsonbValue Nat) ["x"] = none ∧
      jsonbDelete (.array [.null] : JsonbValue Nat) ["x"] = .array []) ∧
    jsonbPath (.array [.object [("a", .null)]] : JsonbValue Nat) ["00", "a"] = some .null ∧
      jsonbDelete (.array [.object [("a", .null)]] : JsonbValue Nat) ["00", "a"] =
        .array [.object [("a", .null)]] := by
  exact ⟨⟨rfl, rfl⟩, rfl, rfl⟩

end Frame

end PostgressRs.Types.JsonbDeletion
