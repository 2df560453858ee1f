import Mathlib.Data.List.Dedup
import Mathlib.Data.List.Sort
import Mathlib.Data.String.Basic
import PostgressRs.Executor.Grouping

/-!
Groups are a partition of the rows (`src/executor/select/group_by.rs`).
-/

namespace PostgressRs.Executor.GroupPartition

open PostgressRs.Executor.Evaluation
open PostgressRs.Executor.Grouping
open PostgressRs.Executor.HeapAccess (Row)
open PostgressRs.Sql.Ast
open PostgressRs.Types

section Entries

variable {key row : List String} {groups : List Group}

/-- The group of a key is the group's rows in the order of the input. -/
structure Partition (keyOf : Row → List String) (rows : List Row) (groups : List Group) :
    Prop where
  nodup : (groups.map Prod.fst).Nodup
  mem_keys : ∀ key, key ∈ groups.map Prod.fst ↔ ∃ row ∈ rows, keyOf row = key
  rows_eq : ∀ group ∈ groups, group.2 = (rows.filter (keyOf · = group.1)).map Prod.snd

theorem keys_pushRow (key row : List String) (groups : List Group) :
    (pushRow key row groups).map Prod.fst =
      if key ∈ groups.map Prod.fst then groups.map Prod.fst
      else groups.map Prod.fst ++ [key] := by
  induction groups with
  | nil => simp [pushRow]
  | cons group groups ih =>
      obtain ⟨key', rows⟩ := group
      rw [pushRow]
      split
      · rename_i heq
        simp [heq]
      · rename_i hne
        have hkey : key ∈ ((key', rows) :: groups).map Prod.fst ↔ key ∈ groups.map Prod.fst := by
          rw [List.map_cons, List.mem_cons, or_iff_right (Ne.symm hne)]
        rw [List.map_cons, ih]
        split
        · rename_i hold
          rw [if_pos (hkey.mpr hold), List.map_cons]
        · rename_i hnew
          rw [if_neg (mt hkey.mp hnew), List.map_cons, List.cons_append]

/-- Every other group stays, and the row goes behind those of its key. -/
theorem mem_pushRow (hnodup : (groups.map Prod.fst).Nodup) {group : Group}
    (hgroup : group ∈ pushRow key row groups) :
    (group ∈ groups ∧ group.1 ≠ key) ∨
      (∃ rows, (key, rows) ∈ groups ∧ group = (key, rows ++ [row])) ∨
      (key ∉ groups.map Prod.fst ∧ group = (key, [row])) := by
  induction groups with
  | nil =>
      rw [pushRow, List.mem_singleton] at hgroup
      exact .inr (.inr ⟨List.not_mem_nil, hgroup⟩)
  | cons first groups ih =>
      obtain ⟨key', rows⟩ := first
      rw [List.map_cons, List.nodup_cons] at hnodup
      rw [pushRow] at hgroup
      split at hgroup
      · rename_i heq
        subst heq
        rcases List.mem_cons.mp hgroup with rfl | htail
        · exact .inr (.inl ⟨rows, List.mem_cons_self, rfl⟩)
        · refine .inl ⟨List.mem_cons_of_mem _ htail, ?_⟩
          intro hkey
          apply hnodup.1
          rw [← hkey]
          exact List.mem_map.mpr ⟨group, htail, rfl⟩
      · rename_i hne
        rcases List.mem_cons.mp hgroup with rfl | htail
        · exact .inl ⟨List.mem_cons_self, hne⟩
        · rcases ih hnodup.2 htail with ⟨hold, hkey⟩ | ⟨rows', hold, heq⟩ | ⟨hnew, heq⟩
          · exact .inl ⟨List.mem_cons_of_mem _ hold, hkey⟩
          · exact .inr (.inl ⟨rows', List.mem_cons_of_mem _ hold, heq⟩)
          · refine .inr (.inr ⟨?_, heq⟩)
            rw [List.map_cons, List.mem_cons, not_or]
            exact ⟨Ne.symm hne, hnew⟩

theorem Partition.pushRow {keyOf : Row → List String} {rows : List Row}
    (h : Partition keyOf rows groups) (row : Row) :
    Partition keyOf (rows ++ [row]) (pushRow (keyOf row) row.2 groups) := by
  have hfilter (key : List String) :
      ((rows ++ [row]).filter (keyOf · = key)).map Prod.snd =
        (rows.filter (keyOf · = key)).map Prod.snd ++ if keyOf row = key then [row.2] else [] := by
    rw [List.filter_append, List.map_append, List.filter_singleton]
    by_cases hkey : keyOf row = key
    · simp [hkey]
    · simp [hkey]
  constructor
  · rw [keys_pushRow]
    split
    · exact h.nodup
    · rename_i hnew
      rw [List.nodup_append]
      refine ⟨h.nodup, List.nodup_singleton _, ?_⟩
      rintro key hkey key' hkey' rfl
      rw [List.mem_singleton.mp hkey'] at hkey
      exact hnew hkey
  · intro key
    have hsome : (∃ row' ∈ rows ++ [row], keyOf row' = key) ↔
        (∃ row' ∈ rows, keyOf row' = key) ∨ keyOf row = key := by
      simp only [List.mem_append, List.mem_singleton, or_and_right, exists_or, exists_eq_left]
    rw [hsome, ← h.mem_keys, keys_pushRow]
    split
    · rename_i hold
      constructor
      · exact Or.inl
      · rintro (hkey | rfl)
        · exact hkey
        · exact hold
    · rw [List.mem_append, List.mem_singleton]
      exact or_congr_right eq_comm
  · intro group hgroup
    rw [hfilter]
    rcases mem_pushRow h.nodup hgroup with ⟨hold, hne⟩ | ⟨rows', hold, rfl⟩ | ⟨hnew, rfl⟩
    · rw [if_neg (Ne.symm hne), List.append_nil]
      exact h.rows_eq group hold
    · rw [if_pos rfl]
      exact congrArg (· ++ [row.2]) (h.rows_eq _ hold)
    · have hnone : rows.filter (keyOf · = keyOf row) = [] := by
        apply List.filter_eq_nil_iff.mpr
        intro row' hrow' hkey
        exact hnew ((h.mem_keys _).mpr ⟨row', hrow', of_decide_eq_true hkey⟩)
      rw [if_pos rfl]
      change [row.2] = (rows.filter (keyOf · = keyOf row)).map Prod.snd ++ [row.2]
      rw [hnone]
      rfl

theorem Partition.foldl {keyOf : Row → List String} {before : List Row}
    (h : Partition keyOf before groups) (rows : List Row) :
    Partition keyOf (before ++ rows)
      (rows.foldl (fun groups row => Grouping.pushRow (keyOf row) row.2 groups) groups) := by
  induction rows generalizing before groups with
  | nil => rwa [List.append_nil]
  | cons row rows ih =>
      rw [List.append_cons]
      exact ih (h.pushRow row)

/-- The groups are those of the distinct keys. -/
theorem Partition.perm {keyOf : Row → List String} {rows : List Row}
    (h : Partition keyOf rows groups) :
    groups.Perm ((rows.map keyOf).dedup.map fun key =>
      (key, (rows.filter (keyOf · = key)).map Prod.snd)) := by
  have hkeys : (groups.map Prod.fst).Perm (rows.map keyOf).dedup := by
    apply (List.perm_ext_iff_of_nodup h.nodup (List.nodup_dedup _)).mpr
    intro key
    rw [h.mem_keys, List.mem_dedup, List.mem_map]
  have hgroups : groups = (groups.map Prod.fst).map fun key =>
      (key, (rows.filter (keyOf · = key)).map Prod.snd) := by
    rw [List.map_map]
    have hid : groups.map id = groups := List.map_id groups
    refine hid.symm.trans (List.map_congr_left ?_)
    intro group hgroup
    exact Prod.ext rfl (h.rows_eq group hgroup)
  rw [hgroups]
  exact hkeys.map _

theorem lengths_pushRow (key row : List String) (groups : List Group) :
    ((pushRow key row groups).map (·.2.length)).sum = (groups.map (·.2.length)).sum + 1 := by
  induction groups with
  | nil => rfl
  | cons group groups ih =>
      obtain ⟨key', rows⟩ := group
      rw [pushRow]
      split
      · simp only [List.map_cons, List.sum_cons, List.length_append, List.length_singleton]
        omega
      · simp only [List.map_cons, List.sum_cons, ih]
        omega

end Entries

section Aggregates

variable [Scalars] (desc : Option TupleDesc)

/-- `COUNT(*)`. -/
def IsCountStar (call : FunctionCall Expr) : Prop :=
  functionName call = "COUNT" ∧ call.args = [.star]

def itemCall : SelectItem Expr → Option (FunctionCall Expr)
  | .expr (.function call) | .exprAs (.function call) _ => some call
  | _ => none

omit [Scalars] in
theorem sorted_perm {vals vals' : List String} (h : vals.Perm vals') :
    sorted vals = sorted vals' := by
  have hle (vals : List String) : (sorted vals).Pairwise (· ≤ ·) :=
    List.pairwise_mergeSort' _ vals
  have hperm : (sorted vals).Perm (sorted vals') :=
    (List.mergeSort_perm vals _).trans (h.trans (List.mergeSort_perm vals' _).symm)
  exact hperm.eq_of_pairwise' (hle vals) (hle vals')

theorem argValues_perm (inner : Expr) {groupRows groupRows' : List (List String)}
    (h : groupRows.Perm groupRows') :
    (argValues desc inner groupRows).Perm (argValues desc inner groupRows') :=
  h.filterMap _

theorem callText_perm {call : FunctionCall Expr} {groupRows groupRows' : List (List String)}
    (hname : functionName call ∈ ["COUNT", "MIN", "MAX"]) (h : groupRows.Perm groupRows') :
    callText desc call groupRows = callText desc call groupRows' := by
  have hcount : countText desc call groupRows = countText desc call groupRows' := by
    rw [countText, countText]
    split
    · rw [(argValues_perm desc _ h).length_eq]
    · rw [h.length_eq]
  have hmin : minText desc call groupRows = minText desc call groupRows' := by
    rw [minText, minText]
    split
    · rw [sorted_perm (argValues_perm desc _ h)]
    · rfl
  have hmax : maxText desc call groupRows = maxText desc call groupRows' := by
    rw [maxText, maxText]
    split
    · rw [sorted_perm (argValues_perm desc _ h)]
    · rfl
  simp only [List.mem_cons, List.not_mem_nil, or_false] at hname
  rcases hname with hname | hname | hname
  · rw [callText, callText, hname]
    exact hcount
  · rw [callText, callText, hname]
    exact hmin
  · rw [callText, callText, hname]
    exact hmax

theorem countStar_text {item : SelectItem Expr} {call : FunctionCall Expr}
    (hitem : itemCall item = some call) (hcall : IsCountStar call)
    (groupRows : List (List String)) :
    evaluateSelectItemWithGroup desc item groupRows = toString groupRows.length := by
  have htext : callText desc call groupRows = toString groupRows.length := by
    rw [callText, hcall.1]
    change countText desc call groupRows = _
    rw [countText, firstArg, hcall.2]
    rfl
  unfold itemCall at hitem
  split at hitem
  · cases hitem
    exact htext
  · cases hitem
    exact htext
  · cases hitem

end Aggregates

section Results

variable [Scalars] (desc : Option TupleDesc) (groupBy : List Expr) (rows : List Row)
  (selectList : List (SelectItem Expr)) (order order' : Iteration)

theorem partition_collectGroups :
    Partition (fun row => groupKey desc groupBy row.2) rows (collectGroups desc groupBy rows) := by
  have hempty : Partition (fun row => groupKey desc groupBy row.2) [] [] := by
    constructor
    · exact List.nodup_nil
    · intro key
      simp
    · intro group hgroup
      exact absurd hgroup List.not_mem_nil
  exact hempty.foldl rows

theorem lengths_collectGroups :
    ((collectGroups desc groupBy rows).map (·.2.length)).sum = rows.length := by
  have hfoldl (groups : List Group) :
      ((rows.foldl (fun groups row => pushRow (groupKey desc groupBy row.2) row.2 groups)
        groups).map (·.2.length)).sum = (groups.map (·.2.length)).sum + rows.length := by
    induction rows generalizing groups with
    | nil => rfl
    | cons row rows ih =>
        rw [List.foldl_cons, ih, lengths_pushRow, List.length_cons]
        omega
  have h := hfoldl []
  rwa [List.map_nil, List.sum_nil, Nat.zero_add] at h

/-- The rows with a key. -/
def rowsOf (key : List String) : List (List String) :=
  (rows.filter fun row => groupKey desc groupBy row.2 = key).map Prod.snd

def distinctKeys : List (List String) :=
  (rows.map fun row => groupKey desc groupBy row.2).dedup

variable {groupBy}

theorem hashAggregate_eq (hgroup : groupBy ≠ []) :
    hashAggregate desc order rows groupBy selectList =
      (order.visit (collectGroups desc groupBy rows)).map (groupRow desc selectList) := by
  apply if_neg
  rintro ⟨hempty, -⟩
  exact hgroup (List.isEmpty_iff.mp hempty)

theorem sortAggregate_eq (hgroup : groupBy ≠ []) :
    sortAggregate desc order rows groupBy selectList =
      hashAggregate desc order rows groupBy selectList := by
  have hempty : groupBy.isEmpty = false := List.isEmpty_eq_false_iff.mpr hgroup
  rw [hashAggregate_eq desc rows selectList order hgroup, sortAggregate, hempty]
  rfl

theorem hashAggregate_perm (hgroup : groupBy ≠ []) :
    (hashAggregate desc order rows groupBy selectList).Perm
      ((distinctKeys desc groupBy rows).map fun key =>
        groupRow desc selectList (key, rowsOf desc groupBy rows key)) := by
  rw [hashAggregate_eq desc rows selectList order hgroup]
  have hperm := (order.perm _).trans (partition_collectGroups desc groupBy rows).perm
  have hmap := hperm.map (groupRow desc selectList)
  rwa [List.map_map] at hmap

theorem countStar_sum (hgroup : groupBy ≠ []) {i : Nat} {item : SelectItem Expr}
    {call : FunctionCall Expr} (hitem : selectList[i]? = some item)
    (hitemCall : itemCall item = some call) (hcall : IsCountStar call) :
    ∃ counts : List Nat,
      (hashAggregate desc order rows groupBy selectList).map (·.2[i]?) =
          counts.map (fun count => some (toString count)) ∧
        counts.sum = rows.length := by
  refine ⟨(order.visit (collectGroups desc groupBy rows)).map (·.2.length), ?_, ?_⟩
  · rw [hashAggregate_eq desc rows selectList order hgroup, List.map_map, List.map_map]
    apply List.map_congr_left
    intro group _
    change (selectList.map fun item => evaluateSelectItemWithGroup desc item group.2)[i]? =
      some (toString group.2.length)
    rw [List.getElem?_map, hitem, Option.map_some, countStar_text desc hitemCall hcall]
  · rw [((order.perm _).map _).sum_nat, lengths_collectGroups]

theorem groups_partition (hgroup : groupBy ≠ []) :
    (hashAggregate desc order rows groupBy selectList).Perm
        (sortAggregate desc order' rows groupBy selectList) ∧
      (hashAggregate desc order rows groupBy selectList).Perm
        ((distinctKeys desc groupBy rows).map fun key =>
          groupRow desc selectList (key, rowsOf desc groupBy rows key)) ∧
      (∀ (i : Nat) item call, selectList[i]? = some item → itemCall item = some call →
        IsCountStar call → ∃ counts : List Nat,
          (hashAggregate desc order rows groupBy selectList).map (·.2[i]?) =
              counts.map (fun count => some (toString count)) ∧
            counts.sum = rows.length) ∧
      ∀ call, functionName call ∈ ["COUNT", "MIN", "MAX"] →
        ∀ groupRows groupRows' : List (List String), groupRows.Perm groupRows' →
          evaluateExprWithGroup desc groupRows (.function call) =
            evaluateExprWithGroup desc groupRows' (.function call) := by
  refine ⟨?_, hashAggregate_perm desc rows selectList order hgroup, ?_, ?_⟩
  · rw [sortAggregate_eq desc rows selectList order' hgroup]
    have horder := hashAggregate_perm desc rows selectList order hgroup
    exact horder.trans (hashAggregate_perm desc rows selectList order' hgroup).symm
  · intro i item call hitem hitemCall hcall
    exact countStar_sum desc rows selectList order hgroup hitem hitemCall hcall
  · intro call hname groupRows groupRows' hperm
    exact callText_perm desc hname hperm

end Results

section Rows

attribute [local instance] wholeNumbers

/-- `COUNT(*)`. -/
def countStar : FunctionCall Expr := ⟨⟨["COUNT"]⟩, [.star], none, none⟩

def inOrder : Iteration := ⟨id, fun groups => List.Perm.refl groups⟩

def oneColumn : TupleDesc :=
  ⟨[{ name := "a", typeOid := ⟨25⟩, attnum := 0, typmod := -1 }]⟩

def threeRows : List Row :=
  [(⟨⟨0⟩, 0⟩, ["1"]), (⟨⟨0⟩, 1⟩, ["2"]), (⟨⟨0⟩, 2⟩, ["1"])]

theorem groups_partition_three :
    ∃ counts : List Nat,
      (hashAggregate (some oneColumn) inOrder threeRows [.identifier "a"]
          [.expr (.function countStar)]).map (·.2[0]?) =
        counts.map (fun count => some (toString count)) ∧ counts.sum = 3 := by
  have hgroup : [Expr.identifier "a"] ≠ [] := List.cons_ne_nil _ _
  have hname : functionName countStar = "COUNT" := by decide +kernel
  have hpartition := groups_partition (some oneColumn) threeRows [.expr (.function countStar)]
    inOrder inOrder hgroup
  exact hpartition.2.2.1 0 _ countStar rfl rfl ⟨hname, rfl⟩

end Rows

end PostgressRs.Executor.GroupPartition
