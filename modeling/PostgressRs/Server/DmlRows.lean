import PostgressRs.Executor.UpdateConservation
import PostgressRs.Server.FailedStatements

/-!
Which rows `UPDATE`, `DELETE` and `INSERT` leave in a table, and which ones they
should.  Rows are those that `slow_scan` shows.
-/

namespace PostgressRs.Server.DmlRows

open PostgressRs.BufferCache.SharedCache
open PostgressRs.Executor.HeapAccess
open PostgressRs.Executor.HeapContents
open PostgressRs.Executor.HeapInvariant
open PostgressRs.Executor.HeapSteps
open PostgressRs.Executor.InsertComplete
open PostgressRs.Executor.RowVersions
open PostgressRs.Executor.SnapshotStability hiding Completes
open PostgressRs.Executor.UpdateConservation
open PostgressRs.Executor.VersionChanges
open PostgressRs.Lib.ByteBuffer
open PostgressRs.Lib.Effects
open PostgressRs.Lib.Effects.Program
open PostgressRs.Lib.Procedure hiding ofExcept orPanic
open PostgressRs.Lib.Utf8
open PostgressRs.RelationCatalog
open PostgressRs.Protocol.Backend
open PostgressRs.Server.Connections
open PostgressRs.Server.FailedStatements
open PostgressRs.Server.Queries
open PostgressRs.Server.QueryHandlers
open PostgressRs.Server.Responses
open PostgressRs.Storage.PageStore
open PostgressRs.Txn.TransactionTable
open PostgressRs.Types
open PostgressRs.Wal.LogRecord
open PostgressRs.Wal.WriteAheadLog

section Expressions

variable {ε : Type}

/-- `str::eq_ignore_ascii_case`. -/
def eqIgnoreAsciiCase (a b : String) : Bool :=
  a.toList.map Char.toLower = b.toList.map Char.toLower

/-- The text of a literal in an expression. -/
def literalValue : Literal → String
  | .number n => n
  | .string s => s
  | .bool b => if b then "true" else "false"
  | .null => "NULL"
  | .blob b => "[" ++ ", ".intercalate (b.map fun byte => toString byte.toNat) ++ "]"
  | .date s => s
  | .time s => s
  | .timestamp s => s
  | .timestampTz s => s
  | .interval s => s
  | .json s => s
  | .jsonB s => s
  | .uuid s => s
  | .money s => s
  | .bit s => s
  | .hex s => s

/-- `evaluate_expr` of `src/server/eval.rs`; `other` evaluates the other kinds of
expressions. -/
def evaluateExpr (other : ε → List String → TupleDesc → Option String) :
    Expr ε → List String → TupleDesc → Option String
  | .literal lit, _, _ => some (literalValue lit)
  | .identifier col, row, desc =>
      (desc.fields.findIdx? fun field => eqIgnoreAsciiCase field.name col).bind fun idx => row[idx]?
  | .other expr, row, desc => other expr row desc

def evaluateWhere (other : ε → List String → TupleDesc → Option String) (whereClause : Expr ε)
    (row : List String) (desc : TupleDesc) : Bool :=
  match evaluateExpr other whereClause row desc with
  | some result => result = "true" || result = "t"
  | none => false

end Expressions

section Intentions

variable {ε κ : Type}

/-- The statements `UPDATE t SET c = literal [WHERE p]`, `DELETE FROM t [WHERE p]` and
`INSERT INTO t VALUES (r1), ..., (rn)` with at least one row. -/
inductive Dml (ε : Type) where
  | update (table : ObjectName) (column : String) (value : Literal)
      (whereClause : Option (Expr ε))
  | delete (table : ObjectName) (whereClause : Option (Expr ε))
  | insert (table : ObjectName) (row : List Literal) (rows : List (List Literal))

def Dml.table : Dml ε → ObjectName
  | .update table _ _ _ => table
  | .delete table _ => table
  | .insert table _ _ => table

def Dml.statement (κ : Type) : Dml ε → Statement ε κ
  | .update table column value whereClause =>
      .update ⟨table, [⟨column, .literal value⟩], whereClause⟩
  | .delete table whereClause => .delete ⟨table, whereClause⟩
  | .insert table row rows =>
      .insert ⟨table, .values ((row :: rows).map fun row => row.map .literal)⟩

/-- The text that a stored literal is shown with. -/
def literalText (lit : Literal) : String := fieldText (literalBytes lit)

/-- The column's index; the number of columns if there is no such column. -/
def columnIndex (desc : TupleDesc) (column : String) : Nat :=
  desc.fields.findIdx fun field => eqIgnoreAsciiCase field.name column

variable (other : ε → List String → TupleDesc → Option String) (desc : TupleDesc)

/-- The row is one that the statement is about. -/
def selected (whereClause : Option (Expr ε)) (row : List String) : Bool :=
  match whereClause with
  | none => true
  | some expr => evaluateWhere other expr row desc

/-- What an `UPDATE` should make of a row. -/
def intendedRow (column : String) (value : Literal) (whereClause : Option (Expr ε))
    (row : List String) : List String :=
  if selected other desc whereClause row then
    row.set (columnIndex desc column) (literalText value)
  else row

/-- The rows that a statement should leave. -/
def intendedRows (rows : Multiset (List String)) : Dml ε → Multiset (List String)
  | .update _ column value whereClause => rows.map (intendedRow other desc column value whereClause)
  | .delete _ whereClause => rows.filter fun row => selected other desc whereClause row = false
  | .insert _ row rows' => rows + ((row :: rows').map fun row => row.map literalText : List _)

end Intentions

section Rows

/-- Rows that stay the same altogether when a column is set in some of them stay the
same one by one. -/
theorem set_eq_self_of_map_eq {rows : Multiset (List String)} {value : String} {i : Nat}
    {p : List String → Bool}
    (h : rows.map (fun row => if p row then row.set i value else row) = rows) {row : List String}
    (hrow : row ∈ rows) (hp : p row = true) : row.set i value = row := by
  set g : List String → List String := fun row => if p row then row.set i value else row
  have hg : ∀ row, (g row).set i value = g row ↔ row.set i value = row ∨ p row = true := by
    intro row
    by_cases hp : p row = true
    · have hset : g row = row.set i value := if_pos hp
      rw [hset, List.set_set]
      exact iff_of_true rfl (Or.inr hp)
    · have hkept : g row = row := if_neg hp
      rw [hkept]
      exact (or_iff_left hp).symm
  have hle : rows.filter (fun row => row.set i value = row) ≤
      rows.filter fun row => (g row).set i value = g row :=
    Multiset.monotone_filter_right rows fun row hself => (hg row).mpr (Or.inl hself)
  have hcard : (rows.filter fun row => (g row).set i value = g row).card =
      (rows.filter fun row => row.set i value = row).card := by
    have hmapped := congrArg (Multiset.countP fun row => row.set i value = row) h
    rw [Multiset.countP_map] at hmapped
    rw [Multiset.countP_eq_card_filter] at hmapped
    exact hmapped
  have hfilter := Multiset.eq_of_le_of_card_le hle hcard.le
  have hmem : row ∈ rows.filter fun row => (g row).set i value = g row :=
    Multiset.mem_filter.mpr ⟨hrow, (hg row).mpr (Or.inr hp)⟩
  rw [← hfilter] at hmem
  exact (Multiset.mem_filter.mp hmem).2

/-- Setting the first column everywhere is the same as setting a column in some rows
only if it is the same for each row. -/
theorem map_set_eq_iff {rows : Multiset (List String)} {value : String} {i : Nat}
    {p : List String → Bool} :
    rows.map (fun row => row.set 0 value) =
        rows.map (fun row => if p row then row.set i value else row) ↔
      ∀ row ∈ rows, row.set 0 value = if p row then row.set i value else row := by
  refine ⟨?_, Multiset.map_congr rfl⟩
  intro heq
  set g : List String → List String := fun row => if p row then row.set i value else row
  have hself : ∀ row ∈ rows, (g row).set 0 value = g row := by
    intro row hrow
    have hmem : g row ∈ rows.map fun row => row.set 0 value := by
      rw [heq]
      exact Multiset.mem_map_of_mem g hrow
    obtain ⟨row', _, hset⟩ := Multiset.mem_map.mp hmem
    rw [← hset, List.set_set]
  have hkept : ∀ row, p row = false → g row = row := fun row hp => if_neg (by simp [hp])
  cases i with
  | zero =>
      intro row hrow
      change row.set 0 value = g row
      cases hp : p row with
      | true => exact (if_pos hp).symm
      | false =>
          have h := hself row hrow
          rw [hkept row hp] at h ⊢
          exact h
  | succ i =>
      have hfirst : ∀ row ∈ rows, row.set 0 value = row := by
        intro row hrow
        cases hp : p row with
        | false =>
            have h := hself row hrow
            rwa [hkept row hp] at h
        | true =>
            have h := hself row hrow
            have hset : g row = row.set (i + 1) value := if_pos hp
            rw [hset] at h
            cases row with
            | nil => rfl
            | cons first rest =>
                have hhead : value = first := by simpa using h
                rw [hhead]
                rfl
      have hsame : rows.map g = rows := by
        rw [← heq]
        exact (Multiset.map_congr rfl hfirst).trans (Multiset.map_id rows)
      intro row hrow
      change row.set 0 value = g row
      rw [hfirst row hrow]
      cases hp : p row with
      | false => exact (hkept row hp).symm
      | true =>
          have hset : g row = row.set (i + 1) value := if_pos hp
          exact (hset.trans (set_eq_self_of_map_eq hsame hrow hp)).symm

end Rows

section Heap

variable [Bincode] [LawfulBincode] {σ : Type} [StorageTrait σ] [LawfulStorage σ] {relOid : Oid}
  {rel : Relation} {db db' : Database σ} {count : Nat}

omit [LawfulBincode] in
theorem changesFrom_deleted {room : Nat × Nat} {xid : UInt64} {work : List (Tuple × Bytes)}
    {change : Change} (h : change ∈ changesFrom deleteFate room xid work) :
    change.fate = .stamped := by
  induction work generalizing room xid with
  | nil => cases h
  | cons entry work ih =>
      obtain ⟨tup, data⟩ := entry
      rcases List.mem_cons.mp h with rfl | h
      · rfl
      · exact ih h

/-- A `DELETE` of everything leaves nothing, as long as `slow_scan` takes the new xids
as done. -/
theorem delete_rows (hrel : db.cache.rels.lookup relOid = some rel) (hnodup : rel.pages.Nodup)
    (hcoded : ∀ q ∈ rel.pages, CodedAt (fun _ => True) db.cache.disk.storage q)
    (hcovers : ∀ change ∈ changesOn (deleteChanges rel.tupleDesc none) db.cache.disk.storage
      rel.pages db.wal.currentXid, Covers maxSnapshot change.xid)
    (h : tupleDelete relOid none db = .ok count db') :
    storedRows maxSnapshot relOid db' = 0 := by
  obtain ⟨_, hchanged⟩ := tupleDelete_changed hrel hnodup hcoded h
  have holds := @changesOn_deleted _ rel.tupleDesc none σ _ db.cache.disk.storage rel.pages _ hcoded
    db.wal.currentXid
  have hall : (versionsOn db.cache.disk.storage rel.pages).filter (Matches rel.tupleDesc none) =
      versionsOn db.cache.disk.storage rel.pages :=
    Multiset.filter_eq_self.mpr fun _ _ => rfl
  have hafter := hchanged.exchanged
  rw [Exchanged, holds, hall, add_comm] at hafter
  rw [storedRows_eq (by rw [hchanged.rels_eq]; exact hrel) hchanged.coded, add_left_cancel hafter,
    shownRows_sum]
  apply List.sum_eq_zero
  intro rows hrows
  obtain ⟨change, hchange, rfl⟩ := List.mem_map.mp hrows
  obtain ⟨page, xid, hmem⟩ := mem_changesOn hchange
  have hinvisible : ¬isVisible change.stamp maxSnapshot = true := by
    rw [isVisible_stamp]
    exact fun hvisible => hvisible.2 (hcovers change hchange)
  rw [Change.after, changesFrom_deleted hmem]
  simp only [shownRows_singleton, if_neg hinvisible]

/-- An `UPDATE` of everything sets the first column in all rows. -/
theorem update_rows (hrel : db.cache.rels.lookup relOid = some rel) (hnodup : rel.pages.Nodup)
    (hcoded : ∀ q ∈ rel.pages, CodedAt (fun _ => True) db.cache.disk.storage q)
    (hwidth : ∀ tup ∈ versionsOn db.cache.disk.storage rel.pages, 0 < width tup) {value : String}
    (hvalue : 0 ∉ asBytes value)
    (hconserved : ∀ change ∈ changesOn (updateChanges rel.tupleDesc 0 (asBytes value) none)
      db.cache.disk.storage rel.pages db.wal.currentXid, Conserved rel.tupleDesc 0 value change)
    (h : tupleUpdate relOid 0 (asBytes value) none db = .ok count db') :
    storedRows maxSnapshot relOid db' =
      (storedRows maxSnapshot relOid db).map fun row => row.set 0 value := by
  obtain ⟨_, hchanged⟩ := tupleUpdate_changed hrel hnodup hcoded h
  have hrows := ((tupleUpdate_conserves_iff hrel hnodup hcoded hwidth hvalue h).mpr hconserved).1
  rw [storedRows_eq (by rw [hchanged.rels_eq]; exact hrel) hchanged.coded,
    storedRows_eq hrel hcoded, hrows]
  rfl

end Heap

section Handlers

variable {ε κ σ : Type} [TextFormat ε] [Bincode] [StorageTrait σ] {executor : SelectExecutor κ σ}
  {cur cur' : Option TransactionId} {s s' : Shared σ}

/-- The tables and the heap's xids are the same. -/
structure SameTables (s s' : Shared σ) : Prop where
  catalog_eq : s'.catalog = s.catalog
  cache_eq : s'.db.cache = s.db.cache
  xid_eq : s'.db.wal.currentXid = s.db.wal.currentXid

instance reflSameTables : Std.Refl (@SameTables σ) where
  refl _ := ⟨rfl, rfl, rfl⟩

instance transSameTables : IsTrans (Shared σ) SameTables where
  trans _ _ _ h h' :=
    ⟨h'.catalog_eq.trans h.catalog_eq, h'.cache_eq.trans h.cache_eq, h'.xid_eq.trans h.xid_eq⟩

/-- The effects that begin, log and end transactions, and `send`. -/
def IsBookkeeping : ServerOp κ → Prop
  | .begin _ => True
  | .commit _ => True
  | .append _ => True
  | .flush => True
  | .send _ => True
  | _ => False

theorem sameTables_machine (op : ServerOp κ) (hop : IsBookkeeping op) (s : Shared σ)
    (answer : (serverEffects κ).Answer op) (s' : Shared σ)
    (h : serverMachine executor op s = some (answer, s')) : SameTables s s' := by
  cases op with
  | begin isolation =>
      cases h
      exact ⟨rfl, rfl, rfl⟩
  | commit xid =>
      cases h
      exact ⟨rfl, rfl, rfl⟩
  | append record =>
      have hdb : Keeps (fun db db' : Database σ =>
          db'.cache = db.cache ∧ db'.wal.currentXid = db.wal.currentXid) (onWal (append record)) :=
        keeps_within (keeps_append record) fun _ _ hxid => ⟨rfl, hxid⟩
      have hshared : Keeps SameTables (onDb (onWal (append record)) : Proc (Shared σ) Nat) :=
        keeps_within hdb fun _ _ h => ⟨rfl, h.1, h.2⟩
      exact keeps_answered hshared h
  | flush =>
      cases h
      exact ⟨rfl, rfl, rfl⟩
  | send messages =>
      cases h
      exact ⟨rfl, rfl, rfl⟩
  | _ => exact hop.elim

/-- A statement that returns has opened its transaction, done its work and concluded,
and only the work is on tables. -/
theorem inTransaction_ok {w : TransactionId → ServerProgram κ Unit}
    (h : run (serverMachine executor) (inTransaction cur w) s = .ok cur' s') :
    ∃ xid wasImplicitTxn s₁ s₂,
      run (serverMachine executor) (openTransaction cur) s = .ok (xid, wasImplicitTxn) s₁ ∧
      run (serverMachine executor) (w xid) s₁ = .ok () s₂ ∧
      SameTables s s₁ ∧ SameTables s₂ s' := by
  have hopens : Performs IsBookkeeping (openTransaction cur : ServerProgram κ _) := by
    cases cur with
    | some xid => exact performs_pure _
    | none =>
        refine performs_bind (performs_call trivial) fun xid => ?_
        exact performs_bind (performs_call trivial) fun _ => performs_pure _
  have hends : ∀ xid wasImplicitTxn,
      Performs IsBookkeeping (conclude xid wasImplicitTxn : ServerProgram κ _) := by
    intro xid wasImplicitTxn
    refine performs_bind ?_ fun _ => performs_bind (performs_call trivial) fun _ => performs_pure _
    cases wasImplicitTxn with
    | false => exact performs_pure _
    | true =>
        refine performs_bind (performs_call trivial) fun _ => ?_
        refine performs_bind (performs_call trivial) fun _ => ?_
        exact performs_bind (performs_call trivial) fun _ => performs_pure _
  rw [inTransaction, run_bind] at h
  obtain ⟨⟨xid, wasImplicitTxn⟩, s₁, hopen, h⟩ := bind_eq_ok.mp h
  simp only [run_bind] at h
  obtain ⟨_, s₂, hwork, h⟩ := bind_eq_ok.mp h
  have hend : run (serverMachine executor) (conclude xid wasImplicitTxn) s₂ = .ok cur' s' := by
    rw [conclude, run_bind]
    simp only [run_bind]
    exact h
  exact ⟨xid, wasImplicitTxn, s₁, s₂, hopen, hwork, (hopens.keeps sameTables_machine).ok hopen,
    ((hends xid wasImplicitTxn).keeps sameTables_machine).ok hend⟩

theorem effect_ok {op : ServerOp κ} {f : (serverEffects κ).Answer op → ServerProgram κ Unit}
    (h : run (serverMachine executor) (QueryHandlers.effect op >>= f) s = .ok () s') :
    ∃ answer t, serverMachine executor op s = some (answer, t) ∧
      run (serverMachine executor) (f answer) t = .ok () s' := by
  rw [QueryHandlers.effect, run_call_bind] at h
  cases heffect : serverMachine executor op s with
  | none =>
      rw [heffect] at h
      cases h
  | some entry =>
      rw [heffect] at h
      exact ⟨entry.1, entry.2, rfl, h⟩

/-- A heap operation that does not fail is what the work does. -/
theorem heapWork_ok {α : Type} {p : Proc (Database σ) α} {result : Except String α}
    {messages : α → List BackendMessage} {t : Shared σ}
    (hresult : answered (onDb p) s = some (result, t))
    (h : run (serverMachine executor) (reply result messages) t = .ok () s')
    (hfails : ¬HeapFails p s) : ∃ a, p s.db = .ok a s'.db := by
  rw [run_reply] at h
  cases h
  rw [answered, onDb, within] at hresult
  cases hp : p s.db with
  | ok a db =>
      rw [hp] at hresult
      cases hresult
      exact ⟨a, rfl⟩
  | err e db => exact absurd ⟨e, db, hp⟩ hfails
  | panic =>
      rw [hp] at hresult
      cases hresult

theorem insertWork_ok {relOid : Oid} {values : List Bytes}
    (h : run (serverMachine executor) (insertWork relOid values) s = .ok () s')
    (hfails : ¬HeapFails (tupleInsert relOid values) s) :
    ∃ result, tupleInsert relOid values s.db = .ok result s'.db := by
  obtain ⟨answer, t, heffect, hreply⟩ := effect_ok h
  exact heapWork_ok heffect hreply hfails

theorem updateWork_ok {relOid : Oid} {value : Bytes} {filter : Option Filter}
    (h : run (serverMachine executor) (updateWork relOid value filter) s = .ok () s')
    (hfails : ¬HeapFails (tupleUpdate relOid 0 value filter) s) :
    ∃ count, tupleUpdate relOid 0 value filter s.db = .ok count s'.db := by
  obtain ⟨answer, t, heffect, hreply⟩ := effect_ok h
  exact heapWork_ok heffect hreply hfails

theorem deleteWork_ok {relOid : Oid} {filter : Option Filter}
    (h : run (serverMachine executor) (deleteWork relOid filter) s = .ok () s')
    (hfails : ¬HeapFails (tupleDelete relOid filter) s) :
    ∃ count, tupleDelete relOid filter s.db = .ok count s'.db := by
  obtain ⟨answer, t, heffect, hreply⟩ := effect_ok h
  exact heapWork_ok heffect hreply hfails

/-- A heap operation between two databases with the tables of `s` and of `s'`. -/
structure Between (s s' : Shared σ) (db db' : Database σ) : Prop where
  cache_eq : db.cache = s.db.cache
  xid_eq : db.wal.currentXid = s.db.wal.currentXid
  cache_eq' : s'.db.cache = db'.cache

theorem insert_handled {insert : InsertStatement ε κ} {entry : Relation}
    {row : List (Expr ε)} {rows : List (List (Expr ε))}
    (h : run (serverMachine executor) (handleStatement (.insert insert) cur) s = .ok cur' s')
    (hsucceeds : Succeeds executor (.statement (.insert insert)) cur s)
    (htable : findRelation ε insert.table (listRelations s.catalog) = some entry)
    (hsource : insert.source = .values (row :: rows)) :
    ∃ db db', Between s s' db db' ∧
      tupleInsert entry.relOid (row.map exprBytes) db = .ok () db' := by
  obtain ⟨xid, wasImplicitTxn, s₁, s₂, hopen, hwork, hs₁, hs'⟩ :=
    @inTransaction_ok _ _ _ _ _ _ _ _ _ (fun _ => insertStatementWork insert) h
  have hfails : ¬InsertFails insert s₁ := hsucceeds xid wasImplicitTxn s₁ hopen
  rw [insertStatementWork, QueryHandlers.effect, run_call_bind] at hwork
  simp only [serverMachine, hs₁.catalog_eq, htable, hsource, List.head?_cons] at hwork
  simp only [InsertFails, hs₁.catalog_eq, htable, hsource] at hfails
  obtain ⟨_, hinsert⟩ := insertWork_ok hwork fun hheap => hfails ⟨row, rfl, hheap⟩
  exact ⟨s₁.db, s₂.db, ⟨hs₁.cache_eq, hs₁.xid_eq, hs'.cache_eq⟩, hinsert⟩

theorem update_handled {update : UpdateStatement ε} {entry : Relation} {setClause : SetClause ε}
    {setClauses : List (SetClause ε)}
    (h : run (serverMachine executor) (handleStatement (.update update) cur) s = .ok cur' s')
    (hsucceeds : Succeeds executor (.statement (.update update)) cur s)
    (htable : findRelation ε update.table (listRelations s.catalog) = some entry)
    (hset : update.setClauses = setClause :: setClauses) :
    ∃ db db' count, Between s s' db db' ∧
      tupleUpdate entry.relOid 0 (exprBytes setClause.value) none db = .ok count db' := by
  obtain ⟨xid, wasImplicitTxn, s₁, s₂, hopen, hwork, hs₁, hs'⟩ :=
    @inTransaction_ok _ _ _ _ _ _ _ _ _ (fun _ => updateStatementWork update) h
  have hfails : ¬UpdateFails update s₁ := hsucceeds xid wasImplicitTxn s₁ hopen
  rw [updateStatementWork, QueryHandlers.effect, run_call_bind] at hwork
  simp only [serverMachine, hs₁.catalog_eq, htable, hset, List.head?_cons] at hwork
  simp only [UpdateFails, hs₁.catalog_eq, htable, hset] at hfails
  obtain ⟨count, hupdate⟩ := updateWork_ok hwork fun hheap => hfails ⟨setClause, rfl, hheap⟩
  exact ⟨s₁.db, s₂.db, count, ⟨hs₁.cache_eq, hs₁.xid_eq, hs'.cache_eq⟩, hupdate⟩

theorem delete_handled {delete : DeleteStatement ε} {entry : Relation}
    (h : run (serverMachine executor) (handleStatement (.delete delete) cur) s = .ok cur' s')
    (hsucceeds : Succeeds executor (.statement (.delete delete)) cur s)
    (htable : findRelation ε delete.table (listRelations s.catalog) = some entry) :
    ∃ db db' count, Between s s' db db' ∧ tupleDelete entry.relOid none db = .ok count db' := by
  obtain ⟨xid, wasImplicitTxn, s₁, s₂, hopen, hwork, hs₁, hs'⟩ :=
    @inTransaction_ok _ _ _ _ _ _ _ _ _ (fun _ => deleteStatementWork delete) h
  have hfails : ¬DeleteFails delete s₁ := hsucceeds xid wasImplicitTxn s₁ hopen
  rw [deleteStatementWork, QueryHandlers.effect, run_call_bind] at hwork
  simp only [serverMachine, hs₁.catalog_eq, htable] at hwork
  simp only [DeleteFails, hs₁.catalog_eq, htable] at hfails
  obtain ⟨count, hdelete⟩ := deleteWork_ok hwork hfails
  exact ⟨s₁.db, s₂.db, count, ⟨hs₁.cache_eq, hs₁.xid_eq, hs'.cache_eq⟩, hdelete⟩

end Handlers

section Statements

variable {ε κ σ : Type} [Bincode] [StorageTrait σ]
  (other : ε → List String → TupleDesc → Option String)

/-- What the heap has to provide: an `UPDATE` finds only visible versions, with a first
column and with room for the next version on their pages, and its value can be read
back; `slow_scan` takes the xids of a `DELETE` as done. -/
def HeapKeeps (rel : Relation) (db : Database σ) : Dml ε → Prop
  | .update _ _ value _ =>
      (∀ tup ∈ versionsOn db.cache.disk.storage rel.pages, 0 < width tup) ∧
      literalBytes value = asBytes (literalText value) ∧ 0 ∉ literalBytes value ∧
      ∀ change ∈ changesOn (updateChanges rel.tupleDesc 0 (literalBytes value) none)
        db.cache.disk.storage rel.pages db.wal.currentXid,
        Conserved rel.tupleDesc 0 (literalText value) change
  | .delete _ _ =>
      ∀ change ∈ changesOn (deleteChanges rel.tupleDesc none) db.cache.disk.storage rel.pages
        db.wal.currentXid, Covers maxSnapshot change.xid
  | .insert _ _ _ => True

/-- When a statement does what it says: an `UPDATE` if it should set the first column of
every row, or the rows are as if it had; a `DELETE` if it should delete every row; an
`INSERT` if it has one row, which has room on a page, is taken as done by `slow_scan` and
is read back as it was written. -/
def DoesAsSaid (rel : Relation) (db : Database σ) (rows : Multiset (List String)) : Dml ε → Prop
  | .update _ column value whereClause =>
      ∀ row ∈ rows, row.set 0 (literalText value) =
        intendedRow other rel.tupleDesc column value whereClause row
  | .delete _ whereClause => ∀ row ∈ rows, selected other rel.tupleDesc whereClause row = true
  | .insert _ row rows' =>
      rows' = [] ∧ FitsPage (newTuple (row.map literalBytes) db.wal.currentXid) ∧
      Covers maxSnapshot db.wal.currentXid ∧
      decodeTupleValues (newTuple (row.map literalBytes) db.wal.currentXid) rel.tupleDesc =
        row.map literalText

omit [Bincode] in
theorem exprBytes_literals [TextFormat ε] (row : List Literal) :
    (row.map (.literal : Literal → Expr ε)).map exprBytes = row.map literalBytes := by
  rw [List.map_map]
  rfl

theorem storedRows_congr {db db' : Database σ} (h : db'.cache = db.cache) (snapshot : Snapshot)
    (relOid : Oid) : storedRows snapshot relOid db' = storedRows snapshot relOid db := by
  simp only [storedRows, h]

omit [Bincode] in
/-- One row is what was to be inserted. -/
theorem insertedRow_eq_iff {rows : Multiset (List String)} {p : Prop} [Decidable p]
    {row intended : List String} {others : List (List String)} :
    rows + (if p then {row} else 0) = rows + ((intended :: others : List _) : Multiset _) ↔
      others = [] ∧ p ∧ row = intended := by
  rw [add_right_inj]
  by_cases hp : p
  · rw [if_pos hp, ← Multiset.coe_singleton, Multiset.coe_eq_coe, List.singleton_perm]
    simp only [List.cons.injEq, hp, true_and]
    rw [and_comm, eq_comm]
  · rw [if_neg hp]
    refine iff_of_false ?_ fun h => hp h.2.1
    intro h
    have hnil := (Multiset.coe_eq_zero _).mp h.symm
    cases hnil

variable [TextFormat ε] [LawfulStorage σ] [LawfulBincode] {executor : SelectExecutor κ σ}
  {cur cur' : Option TransactionId} {s s' : Shared σ}

end Statements

section TwoRows

/-- A server with one table of one text column. -/
def tableShared : Shared EphemeralStorage :=
  emptyShared.setSchema (createRelation emptyTable emptyShared.schema).2

/-- `INSERT INTO t VALUES ('a'), ...` -/
def insertRows (rows : List (List Literal)) : Dml Empty :=
  .insert ⟨["t"]⟩ [.string "a"] rows

theorem tableShared_found :
    findRelation Empty ⟨["t"]⟩ (listRelations tableShared.catalog) = some emptyTable := rfl

theorem tableShared_db : tableShared.db = freshDatabase [emptyTable] := rfl

theorem tableShared_registered :
    tableShared.db.cache.rels.lookup emptyTable.relOid = some emptyTable := rfl

/-- An insertion that succeeds is all that its work does to the server. -/
theorem run_insertWork {κ σ : Type} [Bincode] [StorageTrait σ] (executor : SelectExecutor κ σ)
    {s : Shared σ} {db : Database σ} {relOid : Oid} {values : List Bytes}
    (h : tupleInsert relOid values s.db = .ok () db) :
    run (serverMachine executor) (insertWork relOid values) s = .ok () { s with db := db } := by
  rw [insertWork, QueryHandlers.effect, run_call_bind]
  simp only [serverMachine, answered, onDb, within, h]
  rfl

/-- Only the first row is inserted. -/
theorem insertRows_returns (rows : List (List Literal)) :
    ∃ db rel, FirstRow db rel ∧
      run (serverMachine noRows) (handleStatement ((insertRows rows).statement Unit) (some ⟨1⟩))
        tableShared = .ok (some ⟨1⟩) { tableShared with db := db } := by
  obtain ⟨db, rel, h⟩ := firstRow
  refine ⟨db, rel, h, ?_⟩
  have hwork := run_insertWork noRows (tableShared_db ▸ h.inserted)
  have hstatement : run (serverMachine noRows) (insertStatementWork
      (⟨⟨["t"]⟩, .values (([.string "a"] :: rows).map fun row => row.map .literal)⟩ :
        InsertStatement Empty Unit)) tableShared = .ok () { tableShared with db := db } := by
    rw [insertStatementWork, QueryHandlers.effect, run_call_bind]
    simp only [serverMachine, tableShared_found]
    exact hwork
  change run (serverMachine noRows) (inTransaction (some ⟨1⟩) fun _ => insertStatementWork
    (⟨⟨["t"]⟩, .values (([.string "a"] :: rows).map fun row => row.map .literal)⟩ :
      InsertStatement Empty Unit)) tableShared = _
  have hopen : run (serverMachine noRows) (openTransaction (some ⟨1⟩)) tableShared =
      .ok (⟨1⟩, false) tableShared := rfl
  rw [inTransaction, run_bind, bind_ok hopen]
  simp only [run_bind]
  rw [bind_ok hstatement]
  rfl

end TwoRows

end PostgressRs.Server.DmlRows
