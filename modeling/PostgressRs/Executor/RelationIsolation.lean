import PostgressRs.Executor.InsertComplete
import PostgressRs.Lib.Transitions

/-!
Inserts into several relations of one cache: when one relation's inserts leave
the others' scans alone.
-/

namespace PostgressRs.Executor.RelationIsolation

open PostgressRs.BufferCache.SharedCache
open PostgressRs.Executor.HeapAccess
open PostgressRs.Executor.HeapSteps
open PostgressRs.Executor.InsertComplete
open PostgressRs.Lib.ByteBuffer
open PostgressRs.Lib.Procedure
open PostgressRs.Lib.Transitions
open PostgressRs.Lib.Utf8
open PostgressRs.Storage.PageRoundTrip
open PostgressRs.Storage.PageStore
open PostgressRs.Storage.SlottedPage
open PostgressRs.Types
open PostgressRs.Wal.LogRecord
open PostgressRs.Wal.WriteAheadLog

section

variable [Bincode] {σ : Type} [StorageTrait σ]

structure InsertOp where
  relOid : Oid
  values : List Bytes

/-- One successful insert. -/
def InsertStep (db : Database σ) (op : InsertOp) (db' : Database σ) : Prop :=
  tupleInsert op.relOid op.values db = .ok () db'

/-- The pages an insert writes: page 1 or the relation's last page, and the
following page if that one is full. -/
def WrittenPage (db : Database σ) (rel : Relation) (values : List Bytes) (p : PageId) : Prop :=
  p = openPage rel ∨ PageFull db rel values ∧ nextPageId (openPage rel) = some p

/-- No other relation lists a page that the insert writes. -/
def WritesOwnPages (db : Database σ) (op : InsertOp) : Prop :=
  ∀ rel, db.cache.rels.lookup op.relOid = some rel →
    ∀ other rel', other ≠ op.relOid → db.cache.rels.lookup other = some rel' →
      ∀ p, WrittenPage db rel op.values p → p ∉ rel'.pages

variable [LawfulStorage σ]

omit [Bincode] in
theorem readPage_openStorage (storage : σ) (rel : Relation) {p : PageId}
    (hp : p ≠ openPage rel) : readPage (openStorage storage rel) p = readPage storage p := by
  unfold openStorage
  unfold openPage at hp
  cases hlast : rel.pages.getLast? with
  | none =>
      rw [hlast] at hp
      exact LawfulStorage.read_write_of_ne storage ⟨1⟩ p _ hp
  | some q => rfl

/-- An insert leaves other relations and the pages it does not write alone. -/
theorem inserted_frame {db : Database σ} {relOid : Oid} {values : List Bytes}
    {cache : SharedBufferCache σ}
    (h : Inserted db.cache relOid (newTuple values db.wal.currentXid) cache) :
    (∀ other, other ≠ relOid → cache.rels.lookup other = db.cache.rels.lookup other) ∧
      ∀ p, (∀ rel, db.cache.rels.lookup relOid = some rel → ¬WrittenPage db rel values p) →
        readPage cache.disk.storage p = readPage db.cache.disk.storage p := by
  cases h with
  | unchanged => exact ⟨fun _ _ => rfl, fun _ _ => rfl⟩
  | @opened rel hrel =>
      refine ⟨fun _ _ => rfl, ?_⟩
      intro p hp
      exact readPage_openStorage _ rel fun heq => hp rel hrel (Or.inl heq)
  | @added rel _ _ _ _ _ hrel _ _ _ _ =>
      refine ⟨fun other hother => AList.lookup_insert_ne hother, ?_⟩
      intro p hp
      have hne : p ≠ openPage rel := fun heq => hp rel hrel (Or.inl heq)
      exact (LawfulStorage.read_write_of_ne _ _ _ _ hne).trans (readPage_openStorage _ _ hne)
  | @extended rel page _ next encoded data data' _ hrel hpage hencoded hadd hnext _ _ _ =>
      refine ⟨fun other hother => AList.lookup_insert_ne hother, ?_⟩
      intro p hp
      have hne : p ≠ openPage rel := fun heq => hp rel hrel (Or.inl heq)
      have hfull : PageFull db rel values := ⟨page, encoded, hpage, hencoded, hadd⟩
      have hneNext : p ≠ next := by
        rintro rfl
        exact hp rel hrel (Or.inr ⟨hfull, hnext⟩)
      calc
        _ = readPage (writePage (openStorage db.cache.disk.storage rel) next data').2 p :=
          LawfulStorage.read_write_of_ne _ _ _ _ hne
        _ = readPage (openStorage db.cache.disk.storage rel) p :=
          LawfulStorage.read_write_of_ne _ _ _ _ hneNext
        _ = readPage db.cache.disk.storage p := readPage_openStorage _ _ hne

theorem insert_keeps_scan {db db' : Database σ} {op : InsertOp} (h : InsertStep db op db')
    (hown : WritesOwnPages db op) {other : Oid} (hother : other ≠ op.relOid)
    (filter : Option Filter) :
    (slowScan other filter db').result? = (slowScan other filter db).result? := by
  have hinserted : Inserted db.cache op.relOid (newTuple op.values db.wal.currentXid) db'.cache :=
    tupleInsert_state (by rw [h]; rfl)
  obtain ⟨hrels, hpages⟩ := inserted_frame hinserted
  apply slowScan_congr filter (hrels other hother)
  intro rel' hrel' p hp
  apply hpages p
  intro rel hrel hwritten
  exact hown rel hrel other rel' hother hrel' p hwritten hp

/-- In a run of inserts that write no page listed by another relation, no insert
changes the rows a scan returns for another relation. -/
theorem run_isolates_relations {db t : Database σ}
    {trace : List (Transition (Database σ) InsertOp)} (hrun : Run InsertStep db trace t)
    (hown : ∀ tr ∈ trace, WritesOwnPages tr.source tr.label) :
    ∀ tr ∈ trace, ∀ other, other ≠ tr.label.relOid →
      (slowScan other none tr.target).result? = (slowScan other none tr.source).result? := by
  intro tr htr other hother
  obtain ⟨past, rest, rfl⟩ := List.append_of_mem htr
  obtain ⟨_, hstep, _⟩ := Run.append_cons_inv hrun
  exact insert_keeps_scan hstep (hown tr htr) hother none

end

section TwoTables

/-- A second table of one text column. -/
def otherTable : Relation := { emptyTable with relOid := ⟨2⟩, name := "u" }

def twoTables : Database EphemeralStorage := freshDatabase [emptyTable, otherTable]

theorem twoTables_pages {relOid : Oid} {rel : Relation}
    (h : twoTables.cache.rels.lookup relOid = some rel) : rel.pages = [] := by
  have hrels : twoTables.cache.rels =
      (AList.insert ⟨2⟩ otherTable (AList.insert ⟨1⟩ emptyTable ∅)) := rfl
  rw [hrels] at h
  by_cases hsecond : relOid = ⟨2⟩
  · rw [hsecond, AList.lookup_insert] at h
    cases h
    rfl
  · rw [AList.lookup_insert_ne hsecond] at h
    by_cases hfirst : relOid = ⟨1⟩
    · rw [hfirst, AList.lookup_insert] at h
      cases h
      rfl
    · rw [AList.lookup_insert_ne hfirst] at h
      simp at h

/-- The first insert into a table without pages, of a value of one byte. -/
theorem first_insert {db : Database EphemeralStorage} {relOid : Oid} {rel : Relation}
    {value : String} {byte : UInt8} {count : Nat}
    (hrel : db.cache.rels.lookup relOid = some rel) (hdesc : rel.tupleDesc = textColumn)
    (hempty : rel.pages = []) (hvalue : asBytes value = [byte]) (hbyte : byte ≠ 0)
    (hxid : 0 < db.wal.currentXid.toNat) (hlt : db.wal.currentXid.toNat < 2 ^ 32 - 1)
    (hwal : Ready db.wal (count + 1)) :
    ∃ db' encoded, tupleInsert relOid ([value].map asBytes) db = .ok () db' ∧
      Filled db' relOid textColumn [[value]] [appended (stored HeapPage.new) encoded] ∧
      encoded.length = 51 ∧ Ready db'.wal count ∧
      db'.wal.currentXid = db.wal.currentXid + 1 := by
  have hfilled : Filled db relOid textColumn [] [] :=
    ⟨⟨rel, hrel, hdesc, hempty⟩, List.Forall₂.nil, by simp, by simp, List.Forall₂.nil⟩
  have hlen : (asBytes value).length ≤ 8112 := by rw [hvalue, List.length_singleton]; omega
  have hnul : NulFree [value] := by
    intro v hv
    rw [List.mem_singleton.mp hv, hvalue, List.mem_singleton]
    exact hbyte.symm
  obtain ⟨encoded, hencoded, hsize⟩ := serialize_oneValue hlen db.wal.currentXid
  have hrow : Encodes textColumn encoded (fitRow 1 [value]) :=
    encodes_newTuple hnul hxid hlt hencoded
  obtain ⟨db', hinsert, hfilled', hready, hnext⟩ :=
    filled_insert_first hfilled hencoded (by omega) hrow hwal
  rw [hvalue, List.length_singleton] at hsize
  exact ⟨db', encoded, hinsert, hfilled', hsize, hready, hnext⟩

/-- A second insert of one byte, into the page of the first. -/
theorem second_insert {db : Database EphemeralStorage} {relOid : Oid} {rows : List (List String)}
    {value : String} {byte : UInt8} {encoded : Bytes} {count : Nat}
    (h : Filled db relOid textColumn rows [appended (stored HeapPage.new) encoded])
    (hlen : encoded.length = 51) (hrows : rows.length < 2 ^ 32 - 1)
    (hvalue : asBytes value = [byte]) (hbyte : byte ≠ 0)
    (hxid : 0 < db.wal.currentXid.toNat) (hlt : db.wal.currentXid.toNat < 2 ^ 32 - 1)
    (hwal : Ready db.wal (count + 1)) :
    ∃ db' page, tupleInsert relOid ([value].map asBytes) db = .ok () db' ∧
      Filled db' relOid textColumn (rows ++ [[value]]) [page] := by
  have hshort : (asBytes value).length = 1 := by rw [hvalue, List.length_singleton]
  have hnul : NulFree [value] := by
    intro v hv
    rw [List.mem_singleton.mp hv, hvalue, List.mem_singleton]
    exact hbyte.symm
  have hfits : (asBytes value).length ≤ 8112 := by omega
  obtain ⟨encoded', hencoded', hsize⟩ := serialize_oneValue hfits db.wal.currentXid
  have hrow : Encodes textColumn encoded' (fitRow 1 [value]) :=
    encodes_newTuple hnul hxid hlt hencoded'
  have hupper := stored_appended_upper encoded
  have hlower : (stored (appended (stored HeapPage.new) encoded)).header.pdLower.toNat = 30 := rfl
  have hfirst : Filled db relOid textColumn rows
      ([] ++ [appended (stored HeapPage.new) encoded]) := h
  obtain ⟨db', hinsert, hfilled, _⟩ :=
    filled_insert_room hfirst hencoded' (by omega) hrow (by omega)
      (by simp only [hlower, linePointerSize]; omega) hrows hwal
  exact ⟨db', _, hinsert, hfilled⟩

theorem asBytes_a : asBytes "a" = [97] := asBytes_replicate 1 'a' 97 (by decide)

theorem asBytes_b : asBytes "b" = [98] := asBytes_replicate 1 'b' 98 (by decide)

theorem run_isolates_relations_oneInsert :
    ∃ db', InsertStep twoTables ⟨⟨1⟩, ["a"].map asBytes⟩ db' ∧
      (slowScan ⟨2⟩ none db').result? = (slowScan ⟨2⟩ none twoTables).result? := by
  have hrel : twoTables.cache.rels.lookup ⟨1⟩ = some emptyTable := rfl
  have hwal : Ready twoTables.wal (0 + 1) := ready_new (by decide) (by decide)
  obtain ⟨db', _, hinsert, _⟩ :=
    first_insert hrel rfl rfl asBytes_a (by decide) (by decide) (by decide) hwal
  have hown : WritesOwnPages twoTables ⟨⟨1⟩, ["a"].map asBytes⟩ := by
    intro rel _ other rel' _ hother p _
    rw [twoTables_pages hother]
    exact List.not_mem_nil
  have hstep : InsertStep twoTables ⟨⟨1⟩, ["a"].map asBytes⟩ db' := hinsert
  have hrun := Run.cons hstep (Run.nil db')
  have hother : (⟨2⟩ : Oid) ≠ ⟨1⟩ := by decide
  refine ⟨db', hstep, ?_⟩
  refine run_isolates_relations hrun ?_ _ List.mem_cons_self ⟨2⟩ hother
  intro tr htr
  rw [List.mem_singleton.mp htr]
  exact hown

/-- Both tables start on page 1: an insert into the second replaces the row of
the first. -/
theorem second_table_overwrites_first :
    ∃ db₁ db₂ rows₁ rows₂, InsertStep twoTables ⟨⟨1⟩, ["a"].map asBytes⟩ db₁ ∧
      InsertStep db₁ ⟨⟨2⟩, ["b"].map asBytes⟩ db₂ ∧
      slowScan ⟨1⟩ none db₁ = .ok rows₁ db₁ ∧ rows₁.map Prod.snd = [["a"]] ∧
      slowScan ⟨1⟩ none db₂ = .ok rows₂ db₂ ∧ rows₂.map Prod.snd = [["b"]] := by
  have hrel : twoTables.cache.rels.lookup ⟨1⟩ = some emptyTable := rfl
  have hwal : Ready twoTables.wal (1 + 1) := ready_new (by decide) (by decide)
  obtain ⟨db₁, encoded₁, hinsert₁, hfilled₁, _, hready₁, hxid₁⟩ :=
    first_insert hrel rfl rfl asBytes_a (by decide) (by decide) (by decide) hwal
  obtain ⟨hrels₁, _⟩ := inserted_frame (tupleInsert_state (by rw [hinsert₁]; rfl))
  have hrel₂ : db₁.cache.rels.lookup ⟨2⟩ = some otherTable := (hrels₁ ⟨2⟩ (by decide)).trans rfl
  have hxid : db₁.wal.currentXid.toNat = 2 := by rw [hxid₁]; rfl
  obtain ⟨db₂, encoded₂, hinsert₂, hfilled₂, _⟩ :=
    first_insert hrel₂ rfl rfl asBytes_b (by decide) (by omega) (by omega) hready₁
  obtain ⟨hrels₂, _⟩ := inserted_frame (tupleInsert_state (by rw [hinsert₂]; rfl))
  obtain ⟨rel, hrelFirst, hdesc, hpages⟩ := hfilled₁.registered
  -- the first table still lists page 1, which now holds the second table's tuple
  have hshared : Filled db₂ ⟨1⟩ textColumn [["b"]]
      [appended (stored HeapPage.new) encoded₂] :=
    ⟨⟨rel, (hrels₂ ⟨1⟩ (by decide)).trans hrelFirst, hdesc, hpages⟩, hfilled₂.held,
      hfilled₂.normal, hfilled₂.nonempty, hfilled₂.encodes⟩
  obtain ⟨rows₁, hscan₁, hrows₁⟩ := hfilled₁.slowScan
  obtain ⟨rows₂, hscan₂, hrows₂⟩ := hshared.slowScan
  exact ⟨db₁, db₂, rows₁, rows₂, hinsert₁, hinsert₂, hscan₁, hrows₁, hscan₂, hrows₂⟩

end TwoTables

end PostgressRs.Executor.RelationIsolation
