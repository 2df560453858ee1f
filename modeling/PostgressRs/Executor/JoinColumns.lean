import PostgressRs.Executor.HashJoin
import PostgressRs.Executor.UngroupedAggregates

/-!
Which columns the condition of a join reads, and which the clauses behind it
(`src/executor/select/context.rs`, `src/executor/select/joins.rs`).
-/

namespace PostgressRs.Executor.JoinColumns

open PostgressRs.Executor.Evaluation
open PostgressRs.Executor.GroupPartition (inOrder)
open PostgressRs.Executor.Grouping
open PostgressRs.Executor.HashJoin
open PostgressRs.Executor.HeapAccess (Row)
open PostgressRs.Executor.Joins
open PostgressRs.Executor.MergeJoin
open PostgressRs.Executor.SelectExecutor
open PostgressRs.Executor.UngroupedAggregates (plainSelect)
open PostgressRs.Lib.ThetaJoin
open PostgressRs.Sql.Ast
open PostgressRs.Types

section Positions

variable {desc : TupleDesc} {col col' : String} {i : Nat}

/-- Where a column stands. -/
def position (desc : TupleDesc) (col : String) : Option Nat :=
  desc.fields.findIdx? fun field => eqIgnoreAsciiCase field.name col

theorem position_lt (h : position desc col = some i) : i < desc.fields.length :=
  (List.findIdx?_eq_some_iff_getElem.mp h).1

/-- Names of one column of a table are names of one column of every table. -/
theorem position_congr (h : position desc col = some i) (h' : position desc col' = some i)
    (desc' : TupleDesc) : position desc' col = position desc' col' := by
  obtain ⟨hi, hname, -⟩ := List.findIdx?_eq_some_iff_getElem.mp h
  obtain ⟨hi', hname', -⟩ := List.findIdx?_eq_some_iff_getElem.mp h'
  have hsame : col.toList.map Char.toLower = col'.toList.map Char.toLower :=
    (of_decide_eq_true hname).symm.trans (of_decide_eq_true hname')
  rw [position, position]
  congr 1
  funext field
  rw [eqIgnoreAsciiCase, eqIgnoreAsciiCase, hsame]

end Positions

section Rows

variable [Scalars] {desc : Option TupleDesc} {left right : List Row} {l r : Expr}

/-- Where both keys have a value, both algorithms join the rows with equal keys. -/
theorem fieldsOf_executeJoin (colNames : List String)
    (hleft : ∀ row ∈ left, evaluateExpr row.2 desc l ≠ none)
    (hright : ∀ row ∈ right, evaluateExpr row.2 desc r ≠ none) :
    fieldsOf (executeJoin desc colNames left right .inner (.on (.binaryOp l .equals r))) =
      (joined (fun a b => evaluateExpr a desc l = evaluateExpr b desc r) (fieldsOf left)
        (fieldsOf right)).map fun pair => pair.1 ++ pair.2 := by
  have hkeys (rows : List Row) {e : Expr} (hrows : ∀ row ∈ rows, evaluateExpr row.2 desc e ≠ none) :
      ∀ fields ∈ fieldsOf rows, evaluateExpr fields desc e ≠ none := by
    intro fields hfields
    obtain ⟨row, hrow, rfl⟩ := List.mem_map.mp hfields
    exact hrows row hrow
  have hinner {m : List String → List String → Prop} [∀ a b, Decidable (m a b)]
      (hm : ∀ a ∈ fieldsOf left, ∀ b ∈ fieldsOf right,
        m a b ↔ evaluateExpr a desc l = evaluateExpr b desc r) :
      (rowsOuter .inner (firstWidth left) (rightColCount left right)).join m (fieldsOf left)
          (fieldsOf right) =
        (joined (fun a b => evaluateExpr a desc l = evaluateExpr b desc r) (fieldsOf left)
          (fieldsOf right)).map fun pair => pair.1 ++ pair.2 := by
    rw [Outer.join, joined_congr hm]
    exact (add_zero _).trans (add_zero _)
  rw [executeJoin, isEquiJoin, if_pos rfl, chooseJoinAlgorithm]
  split_ifs
  · change fieldsOf (hashJoin desc left right (.binaryOp l .equals r) .inner) = _
    rw [fieldsOf_hashJoin]
    apply hinner
    intro a ha b _
    exact and_iff_left (hkeys left hleft a ha)
  · change fieldsOf (mergeJoin desc left right (.binaryOp l .equals r) .inner) = _
    rw [fieldsOf_mergeJoin]
    apply hinner
    intro a ha b hb
    obtain ⟨key, hkey⟩ := Option.ne_none_iff_exists'.mp (hkeys left hleft a ha)
    obtain ⟨key', hkey'⟩ := Option.ne_none_iff_exists'.mp (hkeys right hright b hb)
    rw [KeysEqual, hkey, hkey', Option.getD_some, Option.getD_some, Option.some_inj]

end Rows

section Statement

variable [Scalars]

/-- `FROM left JOIN right ON left.c = right.d`. -/
def joinClause (leftName rightName c d : String) : Option (FromClause Expr SelectStatement) :=
  some ⟨[⟨.table (.single leftName), none, .inner, .none⟩,
    ⟨.table (.single rightName), none, .inner,
      .on (.binaryOp (.qualifiedIdentifier leftName c) .equals
        (.qualifiedIdentifier rightName d))⟩]⟩

/-- A column of one of the joined tables. -/
inductive Reference where
  | left (col : String)
  | right (col : String)

def Reference.expr (leftName rightName : String) : Reference → Expr
  | .left col => .qualifiedIdentifier leftName col
  | .right col => .qualifiedIdentifier rightName col

/-- Where the column stands in a joined row. -/
def Reference.place (leftDesc rightDesc : TupleDesc) : Reference → Option Nat
  | .left col => position leftDesc col
  | .right col => (position rightDesc col).map (leftDesc.fields.length + ·)

/-- The tables that the names stand for while a statement runs. -/
def Resolves (resolveTable : ObjectName → Option Expr → Except String Table)
    (leftName rightName : String) (whereClause : Option Expr) (left right : ShapedTable) : Prop :=
  resolveTable (.single leftName) whereClause = .ok left.toTable ∧
    resolveTable (.single rightName) none = .ok right.toTable

/-- The concatenations of the rows with equal values at the places. -/
def equalRows (i j : Nat) (left right : List Row) : Multiset (List String) :=
  (joined (fun l r => l[i]? = r[j]?) (fieldsOf left) (fieldsOf right)).map
    fun pair => pair.1 ++ pair.2

variable (order : Iteration) (leftName rightName c d : String) (leftDesc rightDesc : TupleDesc)

/-- Whatever the tables hold, the statement returns the rows with equal values. -/
def RowsRight (i j : Nat) : Prop :=
  ∀ resolveTable (left right : ShapedTable), left.desc = leftDesc → right.desc = rightDesc →
    Resolves resolveTable leftName rightName none left right →
      ∃ result, executeSelect order resolveTable
          (plainSelect .all [.star] (joinClause leftName rightName c d) none [] []) = .ok result ∧
        (result.rows : Multiset (List String)) = equalRows i j left.rows right.rows

/-- Whatever the tables hold, later clauses read the column where it stands in a joined row. -/
def ReadsRight (reference : Reference) (k : Nat) : Prop :=
  ∀ resolveTable (left right : ShapedTable) whereClause,
    left.desc = leftDesc → right.desc = rightDesc →
    Resolves resolveTable leftName rightName whereClause left right →
      ∃ context base, readFrom order resolveTable [.star] whereClause
          (joinClause leftName rightName c d) = .ok (context, base) ∧
        ∀ row ∈ base,
          evaluateExpr row.2 context.tupleDesc (reference.expr leftName rightName) = row.2[k]?

/-- The column stands at the same place of both, or is the join column of the right table, which
stands where that of the left one does. -/
def Reference.Kept (i j k : Nat) (rightDesc : TupleDesc) : Reference → Prop
  | .left col => position rightDesc col = some k
  | .right col => position rightDesc col = some j ∧ i = j

end Statement

section Kept

variable [Scalars] {order : Iteration} {leftName rightName c d : String}
  {resolveTable : ObjectName → Option Expr → Except String Table} {left right : ShapedTable}
  {whereClause : Option Expr}

/-- The rows that the join makes with the columns of the right table. -/
def joinedRows (leftName rightName c d : String) (left right : ShapedTable) : List Row :=
  executeJoin (some right.desc) (right.desc.fields.map Attribute.name) left.rows right.rows .inner
    (.on (.binaryOp (.qualifiedIdentifier leftName c) .equals (.qualifiedIdentifier rightName d)))

theorem readFrom_join (h : Resolves resolveTable leftName rightName whereClause left right)
    (selectList : List (SelectItem Expr)) :
    readFrom order resolveTable selectList whereClause (joinClause leftName rightName c d) =
      .ok (right.context, joinedRows leftName rightName c d left right) := by
  obtain ⟨hleft, hright⟩ := h
  have hread (joins : List (Join Expr SelectStatement)) :
      readFrom order resolveTable selectList whereClause (some ⟨joins⟩) =
        executeFrom order resolveTable whereClause joins := rfl
  rw [joinClause, hread, executeFrom, resolveTableRef, hleft]
  change executeJoins order resolveTable left.context left.rows _ = _
  rw [executeJoins, resolveTableRef, hright]
  rfl

theorem executeSelect_join (h : Resolves resolveTable leftName rightName none left right) :
    executeSelect order resolveTable
        (plainSelect .all [.star] (joinClause leftName rightName c d) none [] []) =
      .ok ⟨resolveColumns right.context [.star],
        (joinedRows leftName rightName c d left right).map Prod.snd⟩ := by
  rw [plainSelect, executeSelect_eq, readFrom_join h]
  rfl

theorem evaluateExpr_column {desc : TupleDesc} {name col : String} {i : Nat}
    (h : position desc col = some i) (row : List String) :
    evaluateExpr row (some desc) (.qualifiedIdentifier name col) = row[i]? := by
  change (position desc col).bind (row[·]?) = _
  rw [h]
  rfl

omit [Scalars] in
theorem getElem?_ne_none {desc : TupleDesc} {col : String} {i : Nat}
    (h : position desc col = some i) {row : List String}
    (hrow : row.length = desc.fields.length) : row[i]? ≠ none := by
  rw [Ne, List.getElem?_eq_none_iff, hrow]
  exact not_le_of_gt (position_lt h)

variable {i j : Nat}

theorem fieldsOf_joinedRows (hc : position left.desc c = some i)
    (hd : position right.desc d = some j) (hshared : position right.desc c = some i) :
    fieldsOf (joinedRows leftName rightName c d left right) =
      equalRows i j left.rows right.rows := by
  rw [joinedRows, fieldsOf_executeJoin]
  · simp only [evaluateExpr_column hshared, evaluateExpr_column hd]
    rfl
  · intro row hrow
    rw [evaluateExpr_column hshared]
    exact getElem?_ne_none hc (left.width row hrow)
  · intro row hrow
    rw [evaluateExpr_column hd]
    exact getElem?_ne_none hd (right.width row hrow)

omit [Scalars] in
theorem exists_of_mem_equalRows {rows rows' : List Row} {fields : List String}
    (h : fields ∈ equalRows i j rows rows') :
    ∃ l ∈ rows, ∃ r ∈ rows', l.2[i]? = r.2[j]? ∧ fields = l.2 ++ r.2 := by
  obtain ⟨pair, hpair, rfl⟩ := Multiset.mem_map.mp h
  obtain ⟨a, ha, hpair⟩ := Multiset.mem_bind.mp hpair
  obtain ⟨b, hb, rfl⟩ := Multiset.mem_map.mp hpair
  obtain ⟨hright, hequal⟩ := Multiset.mem_filter.mp hb
  obtain ⟨l, hl, rfl⟩ := List.mem_map.mp ha
  obtain ⟨r, hr, rfl⟩ := List.mem_map.mp hright
  exact ⟨l, hl, r, hr, hequal, rfl⟩

variable {leftDesc rightDesc : TupleDesc}

theorem rowsRight_of_shared (hc : position leftDesc c = some i) (hd : position rightDesc d = some j)
    (hshared : position rightDesc c = some i) :
    RowsRight order leftName rightName c d leftDesc rightDesc i j := by
  rintro resolveTable left right rfl rfl h
  exact ⟨_, executeSelect_join h, fieldsOf_joinedRows hc hd hshared⟩

theorem readsRight_of_kept (hc : position leftDesc c = some i) (hd : position rightDesc d = some j)
    (hshared : position rightDesc c = some i) {reference : Reference} {k : Nat}
    (hplace : reference.place leftDesc rightDesc = some k)
    (hkept : reference.Kept i j k rightDesc) :
    ReadsRight order leftName rightName c d leftDesc rightDesc reference k := by
  rintro resolveTable left right whereClause rfl rfl h
  refine ⟨_, _, readFrom_join h [.star], ?_⟩
  intro row hrow
  have hfields : row.2 ∈ fieldsOf (joinedRows leftName rightName c d left right) :=
    List.mem_map_of_mem hrow
  rw [fieldsOf_joinedRows hc hd hshared] at hfields
  obtain ⟨l, hl, r, hr, hequal, hcombined⟩ := exists_of_mem_equalRows hfields
  cases reference with
  | left col => exact evaluateExpr_column hkept row.2
  | right col =>
      obtain ⟨hcol, rfl⟩ := hkept
      obtain ⟨place, hfound, rfl⟩ := Option.map_eq_some_iff.mp hplace
      rw [hcol] at hfound
      cases hfound
      have hlength := left.width l hl
      have hlt : i < l.2.length := by
        rw [hlength]
        exact position_lt hc
      change evaluateExpr row.2 (some right.desc) (.qualifiedIdentifier rightName col) = _
      rw [evaluateExpr_column hcol, hcombined, List.getElem?_append_left hlt, hequal, ← hlength,
        List.getElem?_append_right (Nat.le_add_right _ _), Nat.add_sub_cancel_left]

/-- Few rows are joined by their hashes. -/
theorem exists_keysMatch (hfew : left.rows.length ≤ 1000) {row : Row}
    (hrow : row ∈ joinedRows leftName rightName c d left right) :
    ∃ l ∈ left.rows, ∃ r ∈ right.rows,
      KeysMatch (some right.desc) (.qualifiedIdentifier leftName c)
        (.qualifiedIdentifier rightName d) l.2 r.2 := by
  have hfields : row.2 ∈ fieldsOf (joinedRows leftName rightName c d left right) :=
    List.mem_map_of_mem hrow
  rw [joinedRows, executeJoin, isEquiJoin, if_pos rfl, chooseJoinAlgorithm, if_pos (.inl hfew)]
    at hfields
  change row.2 ∈ fieldsOf (hashJoin _ _ _ (.binaryOp _ .equals _) .inner) at hfields
  rw [fieldsOf_hashJoin] at hfields
  rcases Outer.mem_join _ hfields with ⟨a, ha, b, hb, hmatch, -⟩ | ⟨f, hf, -⟩ | ⟨f, hf, -⟩
  · obtain ⟨l, hl, rfl⟩ := List.mem_map.mp ha
    obtain ⟨r, hr, rfl⟩ := List.mem_map.mp hb
    exact ⟨l, hl, r, hr, hmatch⟩
  · cases hf
  · cases hf

end Kept

section Contents

/-- Places that hold equal values in every row that is joined at `i` and `m`. -/
def Tied (i m k t : Nat) : Prop := t = k ∨ (k = i ∨ k = m) ∧ (t = i ∨ t = m)

instance (i m k t : Nat) : Decidable (Tied i m k t) := inferInstanceAs (Decidable (_ ∨ _))

theorem tied_join (i m k : Nat) : Tied i m k i ↔ Tied i m k m := by
  unfold Tied
  omega

/-- `1` at the places that are tied to `k`, and `0` at the others. -/
def mark (i m k t : Nat) : String := if Tied i m k t then "1" else "0"

theorem mark_join (i m k : Nat) : mark i m k i = mark i m k m := by
  rw [mark, mark, if_congr (tied_join i m k) rfl rfl]

theorem tied_of_mark {i m k t : Nat} (h : mark i m k t = "1") : Tied i m k t := by
  rw [mark] at h
  split at h
  · assumption
  · exact absurd h (by decide)

theorem mark_self (i m k : Nat) : mark i m k k = "1" := if_pos (.inl rfl)

/-- A row with the values of a function. -/
def valuesRow (width : Nat) (value : Nat → String) : List String :=
  (List.range width).map value

theorem getElem?_valuesRow {width t : Nat} (h : t < width) (value : Nat → String) :
    (valuesRow width value)[t]? = some (value t) := by
  rw [valuesRow, List.getElem?_map, List.getElem?_range h]
  rfl

theorem lt_of_getElem?_valuesRow {width t : Nat} {value : Nat → String} {val : String}
    (h : (valuesRow width value)[t]? = some val) : t < width ∧ value t = val := by
  obtain ⟨ht, -⟩ := List.getElem?_eq_some_iff.mp h
  rw [valuesRow, List.length_map, List.length_range] at ht
  rw [getElem?_valuesRow ht] at h
  exact ⟨ht, Option.some.inj h⟩

theorem valuesRow_append (width width' : Nat) (value : Nat → String) :
    valuesRow width value ++ valuesRow width' (fun t => value (width + t)) =
      valuesRow (width + width') value := by
  rw [valuesRow, valuesRow, valuesRow, List.range_add, List.map_append, List.map_map]
  rfl

def oneRowTable (desc : TupleDesc) (value : Nat → String) : ShapedTable where
  desc := desc
  rows := [(⟨⟨0⟩, 0⟩, valuesRow desc.fields.length value)]
  width row hrow := by
    rw [List.mem_singleton.mp hrow, valuesRow, List.length_map, List.length_range]

/-- One name is that of the left table, and every other one that of the right table. -/
def twoTables (leftName : String) (left right : ShapedTable) (name : ObjectName)
    (_ : Option Expr) : Except String Table :=
  if name = .single leftName then .ok left.toTable else .ok right.toTable

theorem resolves_twoTables {leftName rightName : String} (hnames : leftName ≠ rightName)
    (whereClause : Option Expr) (left right : ShapedTable) :
    Resolves (twoTables leftName left right) leftName rightName whereClause left right := by
  constructor
  · exact if_pos rfl
  · apply if_neg
    intro h
    cases h
    exact hnames rfl

/-- The rows of both tables together are marked at the places that are tied to `k`. -/
def markedLeft (leftDesc : TupleDesc) (i j k : Nat) : ShapedTable :=
  oneRowTable leftDesc (mark i (leftDesc.fields.length + j) k)

def markedRight (leftDesc rightDesc : TupleDesc) (i j k : Nat) : ShapedTable :=
  oneRowTable rightDesc fun t =>
    mark i (leftDesc.fields.length + j) k (leftDesc.fields.length + t)

def markedRow (leftDesc rightDesc : TupleDesc) (i j k : Nat) : List String :=
  valuesRow (leftDesc.fields.length + rightDesc.fields.length)
    (mark i (leftDesc.fields.length + j) k)

theorem equalRows_marked {leftDesc rightDesc : TupleDesc} {i j : Nat}
    (hi : i < leftDesc.fields.length) (hj : j < rightDesc.fields.length) (k : Nat) :
    equalRows i j (markedLeft leftDesc i j k).rows (markedRight leftDesc rightDesc i j k).rows =
      {markedRow leftDesc rightDesc i j k} := by
  have hequal : (valuesRow leftDesc.fields.length (mark i (leftDesc.fields.length + j) k))[i]? =
      (valuesRow rightDesc.fields.length fun t =>
        mark i (leftDesc.fields.length + j) k (leftDesc.fields.length + t))[j]? := by
    rw [getElem?_valuesRow hi, getElem?_valuesRow hj, mark_join]
  rw [markedRow, ← valuesRow_append, equalRows, joined]
  change Multiset.map _ (Multiset.bind {_} _) = _
  rw [Multiset.singleton_bind]
  change Multiset.map _ (Multiset.map _ (Multiset.filter _ {_})) = _
  rw [Multiset.filter_singleton, if_pos hequal]
  rfl

end Contents

section Necessary

variable [Scalars] {order : Iteration} {leftName rightName c d : String}
  {leftDesc rightDesc : TupleDesc} {i j : Nat}

theorem exists_position {desc : TupleDesc} {name col : String} {row : List String} {val : String}
    (h : evaluateExpr row (some desc) (.qualifiedIdentifier name col) = some val) :
    ∃ p, position desc col = some p ∧ row[p]? = some val :=
  Option.bind_eq_some_iff.mp h

theorem shared_of_rowsRight (hnames : leftName ≠ rightName) (hc : position leftDesc c = some i)
    (hd : position rightDesc d = some j)
    (hright : RowsRight order leftName rightName c d leftDesc rightDesc i j) :
    position rightDesc c = some i := by
  have hi := position_lt hc
  have hj := position_lt hd
  have hresolves := resolves_twoTables hnames none (markedLeft leftDesc i j i)
    (markedRight leftDesc rightDesc i j i)
  obtain ⟨result, hresult, hrows⟩ := hright _ _ _ rfl rfl hresolves
  rw [executeSelect_join hresolves] at hresult
  cases hresult
  rw [equalRows_marked hi hj] at hrows
  have hmem := Multiset.mem_singleton_self (markedRow leftDesc rightDesc i j i)
  rw [← hrows] at hmem
  obtain ⟨row, hrow, -⟩ := List.mem_map.mp hmem
  have hfew : (markedLeft leftDesc i j i).rows.length ≤ 1000 := by
    change 1 ≤ 1000
    decide
  obtain ⟨l, hl, r, hr, hequal, -⟩ := exists_keysMatch hfew hrow
  rw [List.mem_singleton.mp hl, List.mem_singleton.mp hr] at hequal
  change evaluateExpr (valuesRow _ _) (some rightDesc) _ =
    evaluateExpr (valuesRow _ _) (some rightDesc) _ at hequal
  rw [evaluateExpr_column hd, getElem?_valuesRow hj, ← mark_join, mark_self] at hequal
  obtain ⟨p, hp, hval⟩ := exists_position hequal
  obtain ⟨hlt, hmark⟩ := lt_of_getElem?_valuesRow hval
  have hpi : p = i := by
    have htied := tied_of_mark hmark
    unfold Tied at htied
    omega
  rw [hp, hpi]

/-- A name that reads the mark of `k` is that of a tied place. -/
theorem tied_of_reads {k : Nat} (hk : k < leftDesc.fields.length + rightDesc.fields.length)
    {name col : String}
    (h : evaluateExpr (markedRow leftDesc rightDesc i j k) (some rightDesc)
      (.qualifiedIdentifier name col) = (markedRow leftDesc rightDesc i j k)[k]?) :
    ∃ p, position rightDesc col = some p ∧ Tied i (leftDesc.fields.length + j) k p := by
  rw [markedRow, getElem?_valuesRow hk, mark_self] at h
  obtain ⟨p, hp, hval⟩ := exists_position h
  exact ⟨p, hp, tied_of_mark (lt_of_getElem?_valuesRow hval).2⟩

theorem kept_of_readsRight (hnames : leftName ≠ rightName) (hc : position leftDesc c = some i)
    (hd : position rightDesc d = some j) (hshared : position rightDesc c = some i)
    {reference : Reference} {k : Nat} (hplace : reference.place leftDesc rightDesc = some k)
    (hreads : ReadsRight order leftName rightName c d leftDesc rightDesc reference k) :
    reference.Kept i j k rightDesc := by
  have hi := position_lt hc
  have hj := position_lt hd
  have hresolves := resolves_twoTables hnames none (markedLeft leftDesc i j k)
    (markedRight leftDesc rightDesc i j k)
  obtain ⟨context, base, hread, hvalues⟩ := hreads _ _ _ none rfl rfl hresolves
  rw [readFrom_join hresolves] at hread
  cases hread
  have hmem := Multiset.mem_singleton_self (markedRow leftDesc rightDesc i j k)
  have hfields := @fieldsOf_joinedRows _ leftName rightName c d (markedLeft leftDesc i j k)
    (markedRight leftDesc rightDesc i j k) i j hc hd hshared
  rw [← equalRows_marked hi hj, ← hfields] at hmem
  obtain ⟨row, hrow, hrowFields⟩ := List.mem_map.mp hmem
  have hvalue := hvalues row hrow
  rw [hrowFields] at hvalue
  cases reference with
  | left col =>
      have hk := position_lt hplace
      obtain ⟨p, hp, htied⟩ := tied_of_reads (Nat.lt_add_right _ hk) hvalue
      rcases htied with rfl | ⟨hki, -⟩
      · exact hp
      · have hik : k = i := by omega
        rw [hik] at hplace ⊢
        exact (position_congr hplace hc rightDesc).trans hshared
  | right col =>
      obtain ⟨place, hcol, rfl⟩ := Option.map_eq_some_iff.mp hplace
      have hk := position_lt hcol
      obtain ⟨p, hp, htied⟩ := tied_of_reads (Nat.add_lt_add_left hk _) hvalue
      rw [hcol] at hp
      cases hp
      unfold Tied at htied
      have hplaces : place = j ∧ i = j := by omega
      rw [← hplaces.1]
      exact ⟨hcol, hplaces.1 ▸ hplaces.2⟩

/-- The condition and the clauses behind it read the columns of the right table: they are right
if the join column of the left one stands there at the same place. -/
theorem join_columns_iff (hnames : leftName ≠ rightName) (hc : position leftDesc c = some i)
    (hd : position rightDesc d = some j) {reference : Reference} {k : Nat}
    (hplace : reference.place leftDesc rightDesc = some k) :
    (RowsRight order leftName rightName c d leftDesc rightDesc i j ↔
        position rightDesc c = some i) ∧
      (RowsRight order leftName rightName c d leftDesc rightDesc i j ∧
          ReadsRight order leftName rightName c d leftDesc rightDesc reference k ↔
        position rightDesc c = some i ∧ reference.Kept i j k rightDesc) := by
  have hrows : RowsRight order leftName rightName c d leftDesc rightDesc i j ↔
      position rightDesc c = some i :=
    ⟨shared_of_rowsRight hnames hc hd, rowsRight_of_shared hc hd⟩
  refine ⟨hrows, ?_⟩
  rw [hrows]
  apply and_congr_right
  intro hshared
  constructor
  · exact kept_of_readsRight hnames hc hd hshared hplace
  · exact readsRight_of_kept hc hd hshared hplace

end Necessary

section Tables

attribute [local instance] wholeNumbers

def textColumns (names : List String) : TupleDesc :=
  ⟨names.map fun name => { name := name, typeOid := ⟨25⟩, attnum := 0, typmod := -1 }⟩

theorem join_columns_iff_id :
    RowsRight inOrder "l" "r" "id" "id" (textColumns ["id", "a"]) (textColumns ["id", "b"]) 0 0 ∧
      ¬ReadsRight inOrder "l" "r" "id" "id" (textColumns ["id", "a"]) (textColumns ["id", "b"])
        (.right "b") 3 := by
  have hid (name : String) : position (textColumns ["id", name]) "id" = some 0 := rfl
  have hb : position (textColumns ["id", "b"]) "b" = some 1 := by decide
  have hplace : (Reference.right "b").place (textColumns ["id", "a"]) (textColumns ["id", "b"]) =
      some 3 := by decide
  obtain ⟨hrows, hboth⟩ := @join_columns_iff _ inOrder "l" "r" "id" "id" _ _ _ _ (by decide)
    (hid "a") (hid "b") _ _ hplace
  refine ⟨hrows.mpr (hid "b"), ?_⟩
  intro hreads
  obtain ⟨-, hcol, -⟩ := hboth.mp ⟨hrows.mpr (hid "b"), hreads⟩
  rw [hb] at hcol
  cases hcol

def secondColumn : ShapedTable :=
  oneRowTable (textColumns ["a", "c"]) fun t => if t = 0 then "x" else "1"

def onlyColumn : ShapedTable := oneRowTable (textColumns ["c"]) fun _ => "1"

/-- The first column of the left table is compared with that of the right one. -/
theorem join_misses_row :
    position secondColumn.desc "c" = some 1 ∧ position onlyColumn.desc "c" = some 0 ∧
      executeSelect inOrder (twoTables "l" secondColumn onlyColumn)
          (plainSelect .all [.star] (joinClause "l" "r" "c" "c") none [] []) =
            .ok ⟨["c"], []⟩ ∧
        equalRows 1 0 secondColumn.rows onlyColumn.rows = {["x", "1", "1"]} := by
  refine ⟨?_, ?_, ?_, ?_⟩
  · decide
  · decide
  · rfl
  · decide

end Tables

end PostgressRs.Executor.JoinColumns
