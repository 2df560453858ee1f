import PostgressRs.Server.Connections

/-!
How tables are created, dropped and looked up by name, with the relations listed in
any order in which the catalog's map may be iterated.
-/

namespace PostgressRs.Server.TableNames

open PostgressRs.BufferCache.SharedCache
open PostgressRs.Lib.Effects
open PostgressRs.Lib.Effects.Program
open PostgressRs.Lib.Procedure hiding ofExcept orPanic
open PostgressRs.Lib.Transitions
open PostgressRs.Protocol.Backend
open PostgressRs.RelationCatalog
open PostgressRs.Server.Connections
open PostgressRs.Server.Queries
open PostgressRs.Server.QueryHandlers
open PostgressRs.Storage.PageStore
open PostgressRs.Txn.TransactionTable
open PostgressRs.Types
open PostgressRs.Wal.LogRecord

section Lookup

/-- The statements that look a table up by its name. -/
inductive Access where
  | insert
  | select
  | update
  | delete
  | createIndex
  | dropTable
deriving DecidableEq

def findExact (name : String) (rels : List Relation) : Option Relation :=
  rels.find? fun rel => rel.name = name

/-- The relation that a statement acts on.  `CREATE INDEX` and `DROP TABLE` compare
the letters as they are; `SELECT` looks up as `resolve_table_ref` does. -/
def target (ε : Type) [TextFormat ε] (access : Access) (table : ObjectName)
    (rels : List Relation) : Option Relation :=
  match access with
  | .insert => findRelation ε table rels
  | .select => findRelation ε table rels
  | .update => findRelation ε table rels
  | .delete => findRelation ε table rels
  | .createIndex => findExact table.join rels
  | .dropTable => findExact table.join rels

/-- At most one relation has a given name, whatever the case of its letters. -/
def NamesUnique (ε : Type) [TextFormat ε] (catalog : Catalog) : Prop :=
  ∀ name, (listRelations catalog).countP
    (fun rel => toUppercase ε rel.name = toUppercase ε name) ≤ 1

/-- The letters of the name have the case that they had at the creation of the table. -/
def SpelledAsCreated (ε : Type) [TextFormat ε] (catalog : Catalog) (name : String) : Prop :=
  ∀ rel ∈ listRelations catalog,
    toUppercase ε rel.name = toUppercase ε name → rel.name = name

/-- No relation has the name. -/
def FreshName (ε : Type) [TextFormat ε] (catalog : Catalog) (name : String) : Prop :=
  ∀ rel ∈ listRelations catalog, toUppercase ε rel.name ≠ toUppercase ε name

/-- With one candidate the order does not matter. -/
theorem find?_eq_of_perm {α : Type} {p : α → Bool} {l₁ l₂ : List α} (h : l₁.Perm l₂)
    (hone : l₁.countP p ≤ 1) : l₁.find? p = l₂.find? p := by
  rw [List.countP_eq_length_filter] at hone
  rw [← List.head?_filter, ← List.head?_filter]
  have hfilter := h.filter p
  match hcandidates : l₁.filter p, hone with
  | [], _ =>
      rw [hcandidates] at hfilter
      rw [hfilter.symm.eq_nil]
  | [rel], _ =>
      rw [hcandidates] at hfilter
      rw [List.singleton_perm.mp hfilter]

theorem erase_sublist (relations : AList fun _ : Oid => Relation) (relOid : Oid) :
    ((relations.erase relOid).entries.map fun entry => entry.2).Sublist
      (relations.entries.map fun entry => entry.2) :=
  (List.kerase_sublist relOid relations.entries).map _

variable {ε : Type} [TextFormat ε] {catalog : Catalog}

theorem findRelation_perm (h : NamesUnique ε catalog) (table : ObjectName)
    {rels₁ rels₂ : List Relation} (h₁ : rels₁.Perm (listRelations catalog))
    (h₂ : rels₂.Perm (listRelations catalog)) :
    findRelation ε table rels₁ = findRelation ε table rels₂ := by
  apply find?_eq_of_perm (h₁.trans h₂.symm)
  rw [h₁.countP_eq]
  exact h table.join

theorem findExact_eq {table : ObjectName} (h : SpelledAsCreated ε catalog table.join)
    {rels : List Relation} (hrels : rels.Perm (listRelations catalog)) :
    findExact table.join rels = findRelation ε table rels := by
  rw [findExact, findRelation, ← List.head?_filter, ← List.head?_filter]
  refine congrArg List.head? (List.filter_congr ?_)
  intro rel hrel
  rw [decide_eq_decide]
  constructor
  · intro hname
    rw [hname]
  · exact h rel (hrels.mem_iff.mp hrel)

end Lookup

section Statements

variable {ε κ σ : Type} [TextFormat ε] [Bincode] [StorageTrait σ] (executor : SelectExecutor κ σ)

/-- The server with a map that is iterated in the given order. -/
def orderedMachine (order : List Relation → List Relation) :
    Machine (serverEffects κ) (Shared σ)
  | .listRelations, s => some (order (listRelations s.catalog), s)
  | op, s => serverMachine executor op s

/-- `CREATE TABLE` and `DROP TABLE`, from either parser. -/
inductive TableStatement where
  | create (name : String) (columns : List (String × Oid))
  | createStatement (stmt : CreateTableStatement)
  | drop (name : String)
  | dropStatement (stmt : DropTableStatement)

def TableStatement.query : TableStatement → Query ε κ
  | .create name columns => .createTable name columns
  | .createStatement stmt => .statement (.createTable stmt)
  | .drop name => .dropTable name
  | .dropStatement stmt => .statement (.dropTable stmt)

/-- A statement, the order of the map while it runs, and the connection's transaction. -/
structure TableCommand where
  statement : TableStatement
  order : List Relation → List Relation
  reorders : ∀ rels, (order rels).Perm rels
  currentXid : Option TransactionId

variable (ε) in
def TableStep (s : Shared σ) (command : TableCommand) (s' : Shared σ) : Prop :=
  ∃ currentXid, run (orderedMachine executor command.order)
    (handleQuery (command.statement.query : Query ε κ) command.currentXid) s = .ok currentXid s'

variable (ε) in
/-- A table is only created under a name that no relation has. -/
def CreatesFresh (s : Shared σ) (command : TableCommand) : Prop :=
  match command.statement with
  | .create name _ => FreshName ε s.catalog name
  | .createStatement stmt => FreshName ε s.catalog stmt.table.join
  | _ => True

variable {executor} {order : List Relation → List Relation}

theorem run_complete {result : Except String Unit} {tag : String} {status : TransactionStatus}
    {currentXid cur' : Option TransactionId} {s s' : Shared σ}
    (h : run (orderedMachine executor order) (complete result tag status currentXid) s =
      .ok cur' s') : s' = s := by
  cases result with
  | ok _ =>
      cases h
      rfl
  | error e =>
      cases h
      rfl

theorem run_executeCreateTable {name : String} {columns : List (String × Oid)}
    {s s' : Shared σ} (h : run (orderedMachine executor order)
      (executeCreateTable name columns : ServerProgram κ Unit) s = .ok () s') :
    ∃ rel : Relation, rel.name = name ∧ rel.relOid = ⟨0⟩ ∧
      s' = s.setSchema (createRelation rel s.schema).2 := by
  cases h
  exact ⟨_, rfl, rfl, rfl⟩

theorem run_executeDropTable {name : String} {result : Except String Unit} {s s' : Shared σ}
    (h : run (orderedMachine executor order)
      (executeDropTable name : ServerProgram κ (Except String Unit)) s = .ok result s') :
    s' = match findExact name (order (listRelations s.catalog)) with
      | some rel => s.setSchema (deleteRelation rel.relOid s.schema)
      | none => s := by
  rw [executeDropTable, QueryHandlers.effect, run_call_bind] at h
  simp only [orderedMachine] at h
  rw [findExact]
  cases hfind : (order (listRelations s.catalog)).find? fun rel => rel.name = name with
  | none =>
      rw [hfind] at h
      cases h
      rfl
  | some rel =>
      rw [hfind] at h
      cases h
      rfl

omit [Bincode] [StorageTrait σ] in
theorem namesUnique_delete {s : Shared σ} (h : NamesUnique ε s.catalog) (relOid : Oid) :
    NamesUnique ε (s.setSchema (deleteRelation relOid s.schema)).catalog := by
  intro name
  exact ((erase_sublist s.catalog.relations relOid).countP_le).trans (h name)

omit [Bincode] [StorageTrait σ] in
theorem namesUnique_create {s : Shared σ} (h : NamesUnique ε s.catalog) {rel : Relation}
    (hnew : rel.relOid = ⟨0⟩) (hfresh : FreshName ε s.catalog rel.name) :
    NamesUnique ε (s.setSchema (createRelation rel s.schema).2).catalog := by
  intro name
  have hlist : listRelations (s.setSchema (createRelation rel s.schema).2).catalog =
      { rel with relOid := ⟨s.catalog.nextOid⟩ } ::
        ((s.catalog.relations.erase ⟨s.catalog.nextOid⟩).entries.map fun entry => entry.2) := by
    simp only [Shared.setSchema, createRelation, if_pos hnew, allocateOid, listRelations,
      AList.entries_insert, List.map_cons]
    rfl
  have hsublist := erase_sublist s.catalog.relations ⟨s.catalog.nextOid⟩
  rw [hlist, List.countP_cons]
  split
  · rename_i hname
    have hnone : (listRelations s.catalog).countP
        (fun rel => toUppercase ε rel.name = toUppercase ε name) = 0 := by
      rw [List.countP_eq_zero]
      intro rel' hrel'
      rw [decide_eq_true_eq] at hname ⊢
      rw [← hname]
      exact hfresh rel' hrel'
    have hle := hsublist.countP_le
      (p := fun rel => decide (toUppercase ε rel.name = toUppercase ε name))
    rw [listRelations] at hnone
    omega
  · exact hsublist.countP_le.trans (h name)

theorem namesUnique_executeCreateTable {s s' : Shared σ} {name : String}
    {columns : List (String × Oid)} (h : NamesUnique ε s.catalog)
    (hfresh : FreshName ε s.catalog name)
    (hrun : run (orderedMachine executor order)
      (executeCreateTable name columns : ServerProgram κ Unit) s = .ok () s') :
    NamesUnique ε s'.catalog := by
  obtain ⟨rel, hname, hnew, rfl⟩ := run_executeCreateTable hrun
  rw [← hname] at hfresh
  exact namesUnique_create h hnew hfresh

theorem namesUnique_executeDropTable {s s' : Shared σ} {name : String}
    {result : Except String Unit} (h : NamesUnique ε s.catalog)
    (hrun : run (orderedMachine executor order)
      (executeDropTable name : ServerProgram κ (Except String Unit)) s = .ok result s') :
    NamesUnique ε s'.catalog := by
  rw [run_executeDropTable hrun]
  cases findExact name (order (listRelations s.catalog)) with
  | none => exact h
  | some rel => exact namesUnique_delete h rel.relOid

theorem namesUnique_step {s s' : Shared σ} {command : TableCommand}
    (h : NamesUnique ε s.catalog) (hfresh : CreatesFresh ε s command)
    (hstep : TableStep ε executor s command s') : NamesUnique ε s'.catalog := by
  obtain ⟨statement, order, hreorders, currentXid⟩ := command
  obtain ⟨cur', hrun⟩ := hstep
  -- Each handler executes its statement and then only sends.
  cases statement with
  | create name columns =>
      change run (orderedMachine executor order) (executeCreateTable name columns >>= fun _ =>
        complete (.ok ()) ("CREATE TABLE " ++ name) (txStatus currentXid) currentXid) s = _ at hrun
      rw [run_bind] at hrun
      obtain ⟨_, s₁, hcreate, hcomplete⟩ := bind_eq_ok.mp hrun
      rw [run_complete hcomplete]
      exact namesUnique_executeCreateTable h hfresh hcreate
  | createStatement stmt =>
      change run (orderedMachine executor order) (executeCreateTable stmt.table.join
        (stmt.columns.map fun col => (col.name, typeOid col.dataType)) >>= fun _ =>
        complete (.ok ()) ("CREATE TABLE " ++ stmt.table.join) .idle currentXid) s = _ at hrun
      rw [run_bind] at hrun
      obtain ⟨_, s₁, hcreate, hcomplete⟩ := bind_eq_ok.mp hrun
      rw [run_complete hcomplete]
      exact namesUnique_executeCreateTable h hfresh hcreate
  | drop name =>
      change run (orderedMachine executor order) (executeDropTable name >>= fun result =>
        complete result ("DROP TABLE " ++ name) (txStatus currentXid) currentXid) s = _ at hrun
      rw [run_bind] at hrun
      obtain ⟨result, s₁, hdrop, hcomplete⟩ := bind_eq_ok.mp hrun
      rw [run_complete hcomplete]
      exact namesUnique_executeDropTable h hdrop
  | dropStatement stmt =>
      change run (orderedMachine executor order) (executeDropTable stmt.table.join >>= fun result =>
        complete result ("DROP TABLE " ++ stmt.table.join) .idle currentXid) s = _ at hrun
      rw [run_bind] at hrun
      obtain ⟨result, s₁, hdrop, hcomplete⟩ := bind_eq_ok.mp hrun
      rw [run_complete hcomplete]
      exact namesUnique_executeDropTable h hdrop

section Targets

variable (executor) (order)

theorem run_insertStatementWork (insert : InsertStatement ε κ) (s : Shared σ) :
    run (orderedMachine executor order) (insertStatementWork insert) s =
      match target ε .insert insert.table (order (listRelations s.catalog)) with
      | some rel =>
          match insert.source with
          | .values rows =>
              match rows.head? with
              | some row =>
                  run (orderedMachine executor order) (insertWork rel.relOid (row.map exprBytes)) s
              | none => .ok () s
          | .select _ =>
              run (orderedMachine executor order) (sendError "INSERT...SELECT not yet supported") s
      | none =>
          run (orderedMachine executor order) (sendError (noRelation insert.table.join)) s := by
  rw [insertStatementWork, QueryHandlers.effect, run_call_bind, target]
  simp only [orderedMachine]
  cases findRelation ε insert.table (order (listRelations s.catalog)) with
  | none => rfl
  | some rel =>
      cases insert.source with
      | select _ => rfl
      | values rows => cases rows <;> rfl

theorem run_updateStatementWork (update : UpdateStatement ε) (s : Shared σ) :
    run (orderedMachine executor order) (updateStatementWork update : ServerProgram κ Unit) s =
      match target ε .update update.table (order (listRelations s.catalog)) with
      | some rel =>
          match update.setClauses.head? with
          | some setClause =>
              run (orderedMachine executor order)
                (updateWork rel.relOid (exprBytes setClause.value) none) s
          | none => .ok () s
      | none =>
          run (orderedMachine executor order) (sendError (noRelation update.table.join)) s := by
  rw [updateStatementWork, QueryHandlers.effect, run_call_bind, target]
  simp only [orderedMachine]
  cases findRelation ε update.table (order (listRelations s.catalog)) with
  | none => rfl
  | some rel => cases update.setClauses <;> rfl

theorem run_deleteStatementWork (delete : DeleteStatement ε) (s : Shared σ) :
    run (orderedMachine executor order) (deleteStatementWork delete : ServerProgram κ Unit) s =
      match target ε .delete delete.table (order (listRelations s.catalog)) with
      | some rel => run (orderedMachine executor order) (deleteWork rel.relOid none) s
      | none =>
          run (orderedMachine executor order) (sendError (noRelation delete.table.join)) s := by
  rw [deleteStatementWork, QueryHandlers.effect, run_call_bind, target]
  simp only [orderedMachine]
  cases findRelation ε delete.table (order (listRelations s.catalog)) with
  | none => rfl
  | some rel => rfl

end Targets

end Statements

section Runs

variable {ε κ σ : Type} [TextFormat ε] [Bincode] [StorageTrait σ] {executor : SelectExecutor κ σ}

variable (ε) in
/-- The statement can find the table by the name it uses. -/
def Resolves (catalog : Catalog) (access : Access) (table : ObjectName) : Prop :=
  access = .createIndex ∨ access = .dropTable → SpelledAsCreated ε catalog table.join

omit [Bincode] [StorageTrait σ] in
theorem target_eq_findRelation {catalog : Catalog} {access : Access} {table : ObjectName}
    (h : Resolves ε catalog access table) {rels : List Relation}
    (hrels : rels.Perm (listRelations catalog)) :
    target ε access table rels = findRelation ε table rels := by
  cases access with
  | createIndex => exact findExact_eq (h (.inl rfl)) hrels
  | dropTable => exact findExact_eq (h (.inr rfl)) hrels
  | _ => rfl

/-- In a run that creates tables under fresh names only, all statements that name a
table, each in a way it can resolve, act on the same relation. -/
theorem names_resolve_uniquely {s t : Shared σ} {trace : List (Transition (Shared σ) TableCommand)}
    (hnew : s.catalog = Catalog.new) (hrun : Run (TableStep ε executor) s trace t)
    (hfresh : ∀ tr ∈ trace, CreatesFresh ε tr.source tr.label) :
    NamesUnique ε t.catalog ∧
      ∀ access₁ access₂ : Access, ∀ table₁ table₂ : ObjectName,
        toUppercase ε table₁.join = toUppercase ε table₂.join →
        Resolves ε t.catalog access₁ table₁ → Resolves ε t.catalog access₂ table₂ →
        ∀ rels₁ rels₂ : List Relation, rels₁.Perm (listRelations t.catalog) →
          rels₂.Perm (listRelations t.catalog) →
          target ε access₁ table₁ rels₁ = target ε access₂ table₂ rels₂ := by
  have hinit : NamesUnique ε s.catalog := by
    intro name
    rw [hnew]
    exact Nat.zero_le _
  have hunique := (Run.invariant (fun s => NamesUnique ε s.catalog) (CreatesFresh ε)
    (fun _ _ _ h hfresh hstep => namesUnique_step h hfresh hstep) hrun hinit hfresh).1
  refine ⟨hunique, ?_⟩
  intro access₁ access₂ table₁ table₂ hname hresolves₁ hresolves₂ rels₁ rels₂ hrels₁ hrels₂
  rw [target_eq_findRelation hresolves₁ hrels₁, target_eq_findRelation hresolves₂ hrels₂,
    findRelation_perm hunique table₁ hrels₁ hrels₂, findRelation, findRelation, hname]

end Runs

section Tables

def createTable (name : String) : TableCommand where
  statement := .create name []
  order := id
  reorders := fun rels => List.Perm.refl rels
  currentXid := none

/-- The server with a relation for each name. -/
def withTables : List String → Shared EphemeralStorage
  | [] => emptyShared
  | name :: names =>
      let s := withTables names
      s.setSchema (createRelation
        { relOid := ⟨0⟩, name := name, tupleDesc := { fields := [] }, pages := [] } s.schema).2

theorem tableStep_create (s : Shared EphemeralStorage) (name : String) :
    TableStep Empty noRows s (createTable name)
      (s.setSchema (createRelation
        { relOid := ⟨0⟩, name := name, tupleDesc := { fields := [] }, pages := [] } s.schema).2) :=
  ⟨none, rfl⟩

theorem names_resolve_uniquely_create : NamesUnique Empty (withTables ["t"]).catalog ∧
    ∀ rels₁ rels₂ : List Relation, rels₁.Perm (listRelations (withTables ["t"]).catalog) →
      rels₂.Perm (listRelations (withTables ["t"]).catalog) →
      target Empty .insert ⟨["T"]⟩ rels₁ = target Empty .dropTable ⟨["t"]⟩ rels₂ := by
  have hrun : Run (TableStep Empty noRows) emptyShared
      [⟨emptyShared, createTable "t", withTables ["t"]⟩] (withTables ["t"]) :=
    Run.cons (tableStep_create emptyShared "t") (Run.nil _)
  have hunique := names_resolve_uniquely rfl hrun (by
    intro tr htr
    rw [List.mem_singleton.mp htr]
    intro rel hrel
    cases hrel)
  refine ⟨hunique.1, hunique.2 .insert .dropTable ⟨["T"]⟩ ⟨["t"]⟩ (by decide) ?_ ?_⟩
  · intro haccess
    simp at haccess
  · intro _ rel hrel _
    rw [List.mem_singleton.mp hrel]
    rfl

/-- After `CREATE TABLE t` and `CREATE TABLE T`, the order decides where `INSERT INTO t`
goes. -/
theorem names_resolve_ambiguously :
    ∃ trace, Run (TableStep Empty noRows) emptyShared trace (withTables ["T", "t"]) ∧
      emptyShared.catalog = Catalog.new ∧
      ¬NamesUnique Empty (withTables ["T", "t"]).catalog ∧
      ∃ rels, rels.Perm (listRelations (withTables ["T", "t"]).catalog) ∧
        target Empty .insert ⟨["t"]⟩ rels ≠
          target Empty .insert ⟨["t"]⟩ (listRelations (withTables ["T", "t"]).catalog) := by
  refine ⟨[⟨emptyShared, createTable "t", withTables ["t"]⟩,
      ⟨withTables ["t"], createTable "T", withTables ["T", "t"]⟩], ?_, rfl, ?_, ?_⟩
  · exact Run.cons (tableStep_create emptyShared "t")
      (Run.cons (tableStep_create (withTables ["t"]) "T") (Run.nil _))
  · intro hunique
    have hcount := hunique "t"
    revert hcount
    decide
  · refine ⟨(listRelations (withTables ["T", "t"]).catalog).reverse, List.reverse_perm _, ?_⟩
    decide

end Tables

end PostgressRs.Server.TableNames
