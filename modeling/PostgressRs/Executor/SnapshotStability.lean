import PostgressRs.Executor.VersionChanges

/-!
Which rows a write takes from a snapshot's view of a relation and which it adds
to it.
-/

namespace PostgressRs.Executor.SnapshotStability

open PostgressRs.BufferCache.PagePool
open PostgressRs.BufferCache.SharedCache
open PostgressRs.Executor.HeapAccess
open PostgressRs.Executor.HeapContents
open PostgressRs.Executor.HeapInvariant
open PostgressRs.Executor.HeapSteps
open PostgressRs.Executor.InsertComplete
open PostgressRs.Executor.RowVersions
open PostgressRs.Executor.VacuumEffects
open PostgressRs.Executor.VersionChanges
open PostgressRs.Lib.ByteBuffer
open PostgressRs.Lib.Procedure
open PostgressRs.Storage.PageContents
open PostgressRs.Storage.PageRoundTrip
open PostgressRs.Storage.PageStore
open PostgressRs.Storage.SlottedPage
open PostgressRs.Txn.TransactionTable
open PostgressRs.Types
open PostgressRs.Wal.LogRecord
open PostgressRs.Wal.WriteAheadLog

section Rows

variable {snapshot : Snapshot} {desc : TupleDesc}

instance (snapshot : Snapshot) (xid : UInt64) : Decidable (Covers snapshot xid) :=
  inferInstanceAs (Decidable (_ ∧ _ ∧ _))

/-- The rows of the versions that the snapshot shows. -/
def shownRows (snapshot : Snapshot) (desc : TupleDesc) (versions : Multiset Tuple) :
    Multiset (List String) :=
  (versions.filter fun tup => isVisible tup snapshot = true).map fun tup =>
    decodeTupleValues tup desc

theorem shownRows_add (versions versions' : Multiset Tuple) :
    shownRows snapshot desc (versions + versions') =
      shownRows snapshot desc versions + shownRows snapshot desc versions' := by
  rw [shownRows, Multiset.filter_add, Multiset.map_add]
  rfl

theorem shownRows_singleton (tup : Tuple) :
    shownRows snapshot desc {tup} =
      if isVisible tup snapshot = true then {decodeTupleValues tup desc} else 0 := by
  unfold shownRows
  split
  · rename_i hvisible
    rw [Multiset.filter_singleton, if_pos hvisible, Multiset.map_singleton]
  · rename_i hinvisible
    rw [Multiset.filter_singleton, if_neg hinvisible]
    rfl

/-- The rows of the stored pages of a relation that the snapshot shows. -/
def storedRows [Bincode] {σ : Type} [StorageTrait σ] (snapshot : Snapshot) (relOid : Oid)
    (db : Database σ) : Multiset (List String) :=
  match db.cache.rels.lookup relOid with
  | some rel =>
      ((scanRows (pageOf db.cache.disk.storage) rel.tupleDesc snapshot rel.pages).map Prod.snd)
  | none => 0

variable [Bincode] [LawfulBincode]

omit [LawfulBincode] in
theorem visibleValues_versions (encoded : Multiset Bytes) :
    encoded.filterMap (visibleValues desc snapshot) =
      shownRows snapshot desc (decodable encoded) := by
  rw [shownRows, Multiset.map_filter_eq_filterMap, decodable, Multiset.filterMap_filterMap]
  congr 1
  funext bytes
  unfold visibleValues
  cases deserializeTuple bytes with
  | error e => rfl
  | ok tup => rfl

theorem scanRows_versions {σ : Type} [StorageTrait σ] {storage : σ} {ids : List PageId}
    (hcoded : ∀ q ∈ ids, CodedAt (fun _ => True) storage q) :
    ((scanRows (pageOf storage) desc snapshot ids).map Prod.snd : Multiset (List String)) =
      shownRows snapshot desc (versionsOn storage ids) := by
  induction ids with
  | nil => rfl
  | cons q ids ih =>
      obtain ⟨page, hpage, hread⟩ := hcoded q List.mem_cons_self
      have hat : pageOf storage q = some (stored page) := by
        rw [pageOf, hread]
        exact deserialize_image hpage.wellFormed
      have hrest := ih fun r hr => hcoded r (List.mem_cons_of_mem _ hr)
      rw [versionsOn_cons hread hpage.wellFormed, shownRows_add, ← hrest, scanRows,
        List.flatMap_cons, List.map_append, ← Multiset.coe_add]
      congr 1
      simp only [hat]
      rw [pageRows_values, versions, ← visibleValues_versions, Multiset.filterMap_coe]
      congr 1
      exact filterMap_restored _ visibleValues_nil _ _

end Rows

section Balance

variable {snapshot : Snapshot} {desc : TupleDesc}

/-- A row that the snapshot shows is lost with a version that is replaced or that
gets a deleter the snapshot covers. -/
def lostRow (snapshot : Snapshot) (desc : TupleDesc) (change : Change) :
    Multiset (List String) :=
  if isVisible change.old snapshot = true ∧
      (change.fate = .replaced ∨ Covers snapshot change.xid) then
    {decodeTupleValues change.old desc}
  else 0

/-- The row of a deleted version comes back with a deleter that the snapshot does
not cover. -/
def revivedRow (snapshot : Snapshot) (desc : TupleDesc) (change : Change) :
    Multiset (List String) :=
  if Covers snapshot change.old.xmin ∧ Covers snapshot change.old.xmax ∧
      change.fate ≠ .replaced ∧ ¬Covers snapshot change.xid then
    {decodeTupleValues change.old desc}
  else 0

/-- The row of a next version that is on the page shows if the snapshot covers
its creator. -/
def nextRow (snapshot : Snapshot) (desc : TupleDesc) (change : Change) :
    Multiset (List String) :=
  if change.fate ≠ .stamped ∧ Covers snapshot change.xid then
    {decodeTupleValues change.next desc}
  else 0

theorem not_covers_zero : ¬Covers snapshot 0 := fun h => h.1 rfl

theorem isVisible_stamp (change : Change) :
    isVisible change.stamp snapshot = true ↔
      Covers snapshot change.old.xmin ∧ ¬Covers snapshot change.xid := isVisible_iff _ _

theorem isVisible_next (change : Change) :
    isVisible change.next snapshot = true ↔ Covers snapshot change.xid :=
  (isVisible_iff _ _).trans (and_iff_left not_covers_zero)

theorem decodeTupleValues_stamp (change : Change) :
    decodeTupleValues change.stamp desc = decodeTupleValues change.old desc := rfl

/-- What one change does to the rows that the snapshot shows. -/
theorem change_rows (change : Change) :
    shownRows snapshot desc change.after + lostRow snapshot desc change =
      shownRows snapshot desc {change.old} +
        (revivedRow snapshot desc change + nextRow snapshot desc change) := by
  have hold := isVisible_iff change.old snapshot
  have hstamp := @isVisible_stamp snapshot change
  have hnext := @isVisible_next snapshot change
  unfold lostRow revivedRow nextRow Change.after
  cases hfate : change.fate with
  | stamped =>
      simp only [shownRows_singleton, hold, hstamp, decodeTupleValues_stamp]
      by_cases hmin : Covers snapshot change.old.xmin
      · by_cases hmax : Covers snapshot change.old.xmax
        · by_cases hxid : Covers snapshot change.xid
          · simp [hmin, hmax, hxid]
          · simp [hmin, hmax, hxid]
        · by_cases hxid : Covers snapshot change.xid
          · simp [hmin, hmax, hxid]
          · simp [hmin, hmax, hxid]
      · simp [hmin]
  | followed =>
      simp only [shownRows_add, shownRows_singleton, hold, hstamp, hnext, decodeTupleValues_stamp]
      by_cases hmin : Covers snapshot change.old.xmin
      · by_cases hmax : Covers snapshot change.old.xmax
        · by_cases hxid : Covers snapshot change.xid
          · simp [hmin, hmax, hxid]
          · simp [hmin, hmax, hxid]
        · by_cases hxid : Covers snapshot change.xid
          · simp [hmin, hmax, hxid, add_comm]
          · simp [hmin, hmax, hxid]
      · simp [hmin]
  | replaced =>
      simp only [shownRows_singleton, hold, hnext]
      by_cases hvisible : Covers snapshot change.old.xmin ∧ ¬Covers snapshot change.old.xmax
      · simp [hvisible, add_comm]
      · simp [hvisible]

theorem changes_rows (changes : List Change) :
    shownRows snapshot desc (changes.map Change.after).sum +
        (changes.map (lostRow snapshot desc)).sum =
      shownRows snapshot desc (changes.map Change.old : Multiset Tuple) +
        ((changes.map (revivedRow snapshot desc)).sum +
          (changes.map (nextRow snapshot desc)).sum) := by
  induction changes with
  | nil => rfl
  | cons change changes ih =>
      simp only [List.map_cons, List.sum_cons, shownRows_add, ← Multiset.cons_coe,
        ← Multiset.singleton_add]
      rw [add_add_add_comm, ih, change_rows, add_add_add_comm, add_add_add_comm (revivedRow _ _ _)]

/-- The changes leave the snapshot's rows as they are exactly if the rows lost
are those that come back or are new. -/
theorem exchanged_shownRows_eq_iff {changes : List Change} {before after : Multiset Tuple}
    (h : Exchanged changes before after) :
    shownRows snapshot desc after = shownRows snapshot desc before ↔
      (changes.map (lostRow snapshot desc)).sum =
        (changes.map (revivedRow snapshot desc)).sum +
          (changes.map (nextRow snapshot desc)).sum := by
  have hrows := congrArg (shownRows snapshot desc) h
  rw [shownRows_add, shownRows_add] at hrows
  have hchanges := @changes_rows snapshot desc changes
  constructor
  · intro heq
    rw [heq] at hrows
    rw [← add_left_cancel hrows] at hchanges
    exact add_left_cancel hchanges
  · intro heq
    rw [heq] at hchanges
    rw [add_right_cancel hchanges] at hrows
    exact add_right_cancel hrows

end Balance

section Writes

variable [Bincode] {σ : Type} [StorageTrait σ]

inductive WriteOp where
  | tupleInsert (values : List Bytes)
  | tupleUpdate (columnIdx : Nat) (newValue : Bytes) (filter : Option Filter)
  | tupleDelete (filter : Option Filter)

/-- The call returns `Ok`. -/
def Completes (relOid : Oid) (db : Database σ) (op : WriteOp) (db' : Database σ) : Prop :=
  match op with
  | .tupleInsert values => tupleInsert relOid values db = .ok () db'
  | .tupleUpdate columnIdx newValue filter =>
      ∃ count, tupleUpdate relOid columnIdx newValue filter db = .ok count db'
  | .tupleDelete filter => ∃ count, tupleDelete relOid filter db = .ok count db'

/-- What the call makes of the versions it finds. -/
def changesOf (db : Database σ) (rel : Relation) : WriteOp → List Change
  | .tupleInsert _ => []
  | .tupleUpdate columnIdx newValue filter =>
      changesOn (updateChanges rel.tupleDesc columnIdx newValue filter) db.cache.disk.storage
        rel.pages db.wal.currentXid
  | .tupleDelete filter =>
      changesOn (deleteChanges rel.tupleDesc filter) db.cache.disk.storage rel.pages
        db.wal.currentXid

/-- The row of an inserted version that the snapshot shows. -/
def insertedRow (snapshot : Snapshot) (db : Database σ) (rel : Relation) :
    WriteOp → Multiset (List String)
  | .tupleInsert values =>
      if FitsPage (newTuple values db.wal.currentXid) ∧ Covers snapshot db.wal.currentXid then
        {decodeTupleValues (newTuple values db.wal.currentXid) rel.tupleDesc}
      else 0
  | .tupleUpdate _ _ _ => 0
  | .tupleDelete _ => 0

/-- The rows that the call takes from the snapshot's view. -/
def rowsLost (snapshot : Snapshot) (db : Database σ) (rel : Relation) (op : WriteOp) :
    Multiset (List String) :=
  ((changesOf db rel op).map (lostRow snapshot rel.tupleDesc)).sum

/-- The rows that the call adds to the snapshot's view. -/
def rowsGained (snapshot : Snapshot) (db : Database σ) (rel : Relation) (op : WriteOp) :
    Multiset (List String) :=
  ((changesOf db rel op).map (revivedRow snapshot rel.tupleDesc)).sum +
    ((changesOf db rel op).map (nextRow snapshot rel.tupleDesc)).sum +
    insertedRow snapshot db rel op

variable [LawfulStorage σ] [LawfulBincode] {snapshot : Snapshot} {relOid : Oid} {rel : Relation}
  {db db' : Database σ}

omit [LawfulStorage σ] in
theorem storedRows_eq (hrel : db.cache.rels.lookup relOid = some rel)
    (hcoded : ∀ p ∈ rel.pages, CodedAt (fun _ => True) db.cache.disk.storage p) :
    storedRows snapshot relOid db =
      shownRows snapshot rel.tupleDesc (versionsOn db.cache.disk.storage rel.pages) := by
  simp only [storedRows, hrel]
  exact scanRows_versions hcoded

omit [LawfulStorage σ] in
theorem RelationChanged.storedRows_eq_iff {changes : List Change}
    (h : RelationChanged changes rel.pages db db')
    (hrel : db.cache.rels.lookup relOid = some rel)
    (hcoded : ∀ p ∈ rel.pages, CodedAt (fun _ => True) db.cache.disk.storage p) :
    storedRows snapshot relOid db' = storedRows snapshot relOid db ↔
      (changes.map (lostRow snapshot rel.tupleDesc)).sum =
        (changes.map (revivedRow snapshot rel.tupleDesc)).sum +
          (changes.map (nextRow snapshot rel.tupleDesc)).sum := by
  rw [storedRows_eq hrel hcoded, storedRows_eq (by rw [h.rels_eq]; exact hrel) h.coded]
  exact exchanged_shownRows_eq_iff h.exchanged

theorem tupleInsert_storedRows {values : List Bytes}
    (hrel : db.cache.rels.lookup relOid = some rel)
    (hincreasing : rel.pages.Pairwise fun p q => p.val < q.val)
    (hcoded : ∀ p ∈ rel.pages, CodedAt (fun _ => True) db.cache.disk.storage p)
    (h : tupleInsert relOid values db = .ok () db') :
    storedRows snapshot relOid db' =
      storedRows snapshot relOid db + insertedRow snapshot db rel (.tupleInsert values) := by
  obtain ⟨rel', hrel', hdesc, hcoded', hversions⟩ :=
    tupleInsert_versions hrel hincreasing hcoded h
  rw [storedRows_eq hrel hcoded, storedRows_eq hrel' hcoded', hdesc, hversions, shownRows_add,
    insertedRow]
  congr 1
  have hvisible : isVisible (newTuple values db.wal.currentXid) snapshot = true ↔
      Covers snapshot db.wal.currentXid :=
    (isVisible_iff _ _).trans (and_iff_left not_covers_zero)
  by_cases hfits : FitsPage (newTuple values db.wal.currentXid)
  · simp only [hfits, if_true, shownRows_singleton, hvisible, true_and]
  · simp only [hfits, if_false, false_and]
    rfl

/-- A write leaves a snapshot's view of the relation as it is if and only if the
rows of the versions it hides from the snapshot are those of the versions it
shows to it. -/
theorem write_keeps_view_iff {op : WriteOp} (hrel : db.cache.rels.lookup relOid = some rel)
    (hincreasing : rel.pages.Pairwise fun p q => p.val < q.val)
    (hcoded : ∀ p ∈ rel.pages, CodedAt (fun _ => True) db.cache.disk.storage p)
    (h : Completes relOid db op db') :
    storedRows snapshot relOid db' = storedRows snapshot relOid db ↔
      rowsLost snapshot db rel op = rowsGained snapshot db rel op := by
  have hnodup : rel.pages.Nodup := by
    apply hincreasing.imp
    rintro p q hlt rfl
    exact absurd hlt (UInt32.lt_irrefl _)
  unfold rowsLost rowsGained
  cases op with
  | tupleInsert values =>
      rw [tupleInsert_storedRows hrel hincreasing hcoded h]
      simp only [changesOf, List.map_nil, List.sum_nil, zero_add]
      exact add_eq_left.trans eq_comm
  | tupleUpdate columnIdx newValue filter =>
      obtain ⟨count, h⟩ := h
      simp only [insertedRow, add_zero]
      exact RelationChanged.storedRows_eq_iff (tupleUpdate_changed hrel hnodup hcoded h).2 hrel
        hcoded
  | tupleDelete filter =>
      obtain ⟨count, h⟩ := h
      simp only [insertedRow, add_zero]
      exact RelationChanged.storedRows_eq_iff (tupleDelete_changed hrel hnodup hcoded h).2 hrel
        hcoded

end Writes

section OneVersion

/-- A page with one version. -/
def oneVersion (tup : Tuple) : HeapPage where
  header := { PageHeader.new with pdLower := 30, pdUpper := 8141 }
  linePointers := [LinePointer.new 8141]
  tuples := [encodeTuple tup]

/-- A table with one stored page, and the next xid. -/
def tableAt (page : HeapPage) (xid : UInt64) : Database EphemeralStorage :=
  { tableOf page with wal := { WAL.new 8192 with currentXid := xid } }

def onePageTable : Relation := { emptyTable with pages := [⟨1⟩] }

theorem tableAt_registered (page : HeapPage) (xid : UInt64) :
    (tableAt page xid).cache.rels.lookup ⟨1⟩ = some onePageTable := tableOf_registered page

theorem tableAt_ready (page : HeapPage) (xid : UInt64) : Ready (tableAt page xid).wal (0 + 1) := by
  have hnew : Ready (WAL.new 8192) (0 + 1) := ready_new (by decide) (by decide)
  exact ⟨hnew.segment_pos, hnew.page_length, hnew.lsn_lt⟩

theorem version_encodable (xmin xmax : UInt64) (value : UInt8) :
    Encodable (version xmin xmax value) :=
  ⟨show 1 < 2 ^ 64 by decide, show 1 < 2 ^ 64 by decide⟩

theorem oneVersion_holds (xmin xmax : UInt64) (value : UInt8) :
    Holds (Coded fun _ => True) (oneVersion (version xmin xmax value)) := by
  have hlength := version_length xmin xmax value
  refine ⟨⟨rfl, ?_, rfl, rfl, show (30 : UInt16).toNat ≤ (8141 : UInt16).toNat by decide, ?_⟩, ?_⟩
  · intro slot lp tuple _ htuple _
    rw [List.mem_singleton.mp (List.mem_of_getElem? htuple)]
    exact List.ne_nil_of_length_pos (by omega)
  · change 8141 + ((encodeTuple _).length + 0) ≤ 8192
    omega
  · intro slot lp tuple _ htuple _
    rw [List.mem_singleton.mp (List.mem_of_getElem? htuple)]
    exact ⟨version xmin xmax value, serializeTuple_ok (version_encodable _ _ _), trivial⟩

theorem oneVersion_matches (xmin xmax : UInt64) {value : UInt8} (hvalue : value ≠ 0)
    (newValue : Bytes) :
    tuplesToUpdate (stored (oneVersion (version xmin xmax value))) textColumn 0 newValue none =
      [(0, version xmin xmax value, newValue)] := by
  have hdecoded : deserializeTuple (encodeTuple (version xmin xmax value)) =
      .ok (version xmin xmax value) :=
    LawfulBincode.deserialize_serialize (serializeTuple_ok (version_encodable _ _ _))
  have hdata : buildUpdatedData (version xmin xmax value).data 0 newValue = some newValue := by
    have hparts : (version xmin xmax value).data.splitOn 0 = [[value]] :=
      List.splitOn_eq_singleton (by simpa [version] using hvalue.symm)
    simp [buildUpdatedData, hparts]
  have htuples : (stored (oneVersion (version xmin xmax value))).tuples =
      [encodeTuple (version xmin xmax value)] := rfl
  simp [tuplesToUpdate, matchingTuples, htuples, hdecoded, writeFilter, hdata]

theorem oneVersion_upper (xmin xmax : UInt64) (value : UInt8) :
    (stored (oneVersion (version xmin xmax value))).header.pdUpper.toNat = 8141 := by
  have hlength := version_length xmin xmax value
  have htotal : HeapPage.totalLen [LinePointer.new 8141]
      [encodeTuple (version xmin xmax value)] = 51 := by
    simp only [HeapPage.totalLen, LinePointer.new, if_true, hlength, Nat.add_zero]
  simp only [stored, oneVersion, htotal]
  decide

theorem oneVersion_room (xmin xmax : UInt64) (value : UInt8) :
    room (stored (oneVersion (version xmin xmax value))) = (8111, 0) := by
  have hlower : (stored (oneVersion (version xmin xmax value))).header.pdLower.toNat = 30 := by
    simp only [stored, oneVersion, relocate, LinePointer.new]
    decide
  refine Prod.ext ?_ rfl
  simp only [room, freeSpace, oneVersion_upper, hlower]

theorem tableAt_read (xmin xmax : UInt64) (value : UInt8) (xid : UInt64) :
    readPage (tableAt (oneVersion (version xmin xmax value)) xid).cache.disk.storage ⟨1⟩ =
      .ok (image (oneVersion (version xmin xmax value))) :=
  LawfulStorage.read_write_self _ _ _

theorem tableAt_coded (xmin xmax : UInt64) (value : UInt8) (xid : UInt64) :
    ∀ p ∈ [(⟨1⟩ : PageId)], CodedAt (fun _ => True)
      (tableAt (oneVersion (version xmin xmax value)) xid).cache.disk.storage p := by
  intro p hp
  rw [List.mem_singleton.mp hp]
  exact ⟨_, oneVersion_holds _ _ _, tableAt_read _ _ _ _⟩

/-- An update of the only version of a table. -/
theorem oneVersion_update {db : Database EphemeralStorage} {relOid : Oid} {rel : Relation}
    {count : Nat} (xmin xmax : UInt64) {value : UInt8} (hvalue : value ≠ 0)
    (hrel : db.cache.rels.lookup relOid = some rel) (hdesc : rel.tupleDesc = textColumn)
    (hpages : rel.pages = [⟨1⟩])
    (hread : readPage db.cache.disk.storage ⟨1⟩ =
      .ok (image (oneVersion (version xmin xmax value))))
    {newValue : Bytes} (hlen : newValue.length ≤ 8079) (hwal : Ready db.wal (count + 1)) :
    ∃ db', tupleUpdate relOid 0 newValue none db = .ok 1 db' := by
  have hlength : (encodeTuple { version xmin xmax value with data := newValue }).length =
      50 + newValue.length := by
    rw [encodeTuple_length]
    rfl
  have hlength' := version_length xmin xmax value
  have hwork : tuplesToUpdate (stored (oneVersion (version xmin xmax value))) rel.tupleDesc 0
      newValue none = [(0, version xmin xmax value, newValue)] := by
    rw [hdesc]
    exact oneVersion_matches xmin xmax hvalue newValue
  obtain ⟨db', hupdate, _⟩ := tupleUpdate_single hrel hpages
    (oneVersion_holds xmin xmax value) hread hwork
    (show 1 < 2 ^ 64 by decide) (show 1 < 2 ^ 64 by decide)
    (by rw [hlength, oneVersion_upper]; omega) (by rw [hlength, hlength']; omega) hwal
  exact ⟨db', hupdate⟩

theorem tableAt_update (xmin xmax : UInt64) {value : UInt8} (hvalue : value ≠ 0) (xid : UInt64)
    {newValue : Bytes} (hlen : newValue.length ≤ 8079) :
    ∃ db', tupleUpdate ⟨1⟩ 0 newValue none (tableAt (oneVersion (version xmin xmax value)) xid) =
      .ok 1 db' :=
  oneVersion_update xmin xmax hvalue (tableAt_registered _ xid) rfl rfl
    (tableAt_read xmin xmax value xid) hlen (tableAt_ready _ xid)

theorem nextVersion_length (xmin xmax : UInt64) (value : UInt8) (xid : UInt64) {newValue : Bytes}
    (hlen : newValue.length < 2 ^ 64) :
    encodedLength { version xmin xmax value with xmin := xid, xmax := 0, data := newValue } =
      50 + newValue.length := by
  have hencodable : Encodable
      { version xmin xmax value with xmin := xid, xmax := 0, data := newValue } :=
    ⟨show 1 < 2 ^ 64 by decide, hlen⟩
  rw [encodedLength_eq (serializeTuple_ok hencodable), encodeTuple_length]
  rfl

/-- The changes of an update of the only version of a table. -/
theorem oneVersion_changes {σ : Type} [StorageTrait σ] {storage : σ} (xmin xmax : UInt64)
    {value : UInt8} (hvalue : value ≠ 0)
    (hread : readPage storage ⟨1⟩ = .ok (image (oneVersion (version xmin xmax value))))
    (xid : UInt64) {newValue : Bytes} (hlen : newValue.length < 2 ^ 64) :
    changesOn (updateChanges textColumn 0 newValue none) storage [⟨1⟩] xid =
      [⟨version xmin xmax value, newValue, xid, updateFate 8111 0 (50 + newValue.length)⟩] := by
  have hat : pageOf storage ⟨1⟩ = some (stored (oneVersion (version xmin xmax value))) := by
    rw [pageOf, hread]
    exact deserialize_image (oneVersion_holds _ _ _).wellFormed
  simp only [changesOn, hat, Option.map_some, Option.getD_some, updateChanges,
    oneVersion_matches xmin xmax hvalue, oneVersion_room, List.map_cons, List.map_nil,
    changesFrom, List.append_nil, nextVersion_length xmin xmax value xid hlen]

theorem tableAt_changes (xmin xmax : UInt64) {value : UInt8} (hvalue : value ≠ 0) (xid : UInt64)
    {newValue : Bytes} (hlen : newValue.length < 2 ^ 64) :
    changesOf (tableAt (oneVersion (version xmin xmax value)) xid) onePageTable
        (.tupleUpdate 0 newValue none) =
      [⟨version xmin xmax value, newValue, xid, updateFate 8111 0 (50 + newValue.length)⟩] :=
  oneVersion_changes xmin xmax hvalue (tableAt_read xmin xmax value xid) xid hlen

/-- A snapshot that sees a row no longer sees it after a HOT update by a later
transaction. -/
theorem update_hides_row :
    ∃ db', Completes ⟨1⟩ (tableAt (oneVersion (version 1 0 97)) 2) (.tupleUpdate 0 [98] none) db' ∧
      (2 : UInt32).toUInt64 ≤ (tableAt (oneVersion (version 1 0 97)) 2).wal.currentXid ∧
      storedRows ⟨⟨2⟩, []⟩ ⟨1⟩ db' ≠
        storedRows ⟨⟨2⟩, []⟩ ⟨1⟩ (tableAt (oneVersion (version 1 0 97)) 2) := by
  have hvalue : (97 : UInt8) ≠ 0 := by decide
  obtain ⟨db', hupdate⟩ := tableAt_update 1 0 hvalue 2 (show [98].length ≤ 8079 by decide)
  refine ⟨db', ⟨1, hupdate⟩, by decide, ?_⟩
  have hchanged := (tupleUpdate_changed (tableAt_registered _ 2) (List.nodup_singleton _)
    (tableAt_coded 1 0 97 2) hupdate).2
  rw [ne_eq, RelationChanged.storedRows_eq_iff hchanged (tableAt_registered _ 2)
    (tableAt_coded 1 0 97 2)]
  intro heq
  have hchanges := tableAt_changes 1 0 hvalue 2 (show [98].length < 2 ^ 64 by decide)
  have hbalance : rowsLost ⟨⟨2⟩, []⟩ (tableAt (oneVersion (version 1 0 97)) 2)
      onePageTable (.tupleUpdate 0 [98] none) =
    rowsGained ⟨⟨2⟩, []⟩ (tableAt (oneVersion (version 1 0 97)) 2)
      onePageTable (.tupleUpdate 0 [98] none) := heq.trans (add_zero _).symm
  have hfate : updateFate 8111 0 (50 + ([98] : Bytes).length) = .replaced := by decide
  rw [rowsLost, rowsGained, hchanges, hfate] at hbalance
  have hcard := congrArg Multiset.card hbalance
  have hvisible : isVisible (version 1 0 97) ⟨⟨2⟩, []⟩ = true := by decide
  have hcovers : ¬Covers ⟨⟨2⟩, []⟩ 2 := by decide
  simp [lostRow, revivedRow, nextRow, insertedRow, hvisible, hcovers] at hcard

theorem write_keeps_view_iff_fallback :
    ∃ db', Completes ⟨1⟩ (tableAt (oneVersion (version 1 0 97)) 2)
        (.tupleUpdate 0 (List.replicate 8070 98) none) db' ∧
      storedRows ⟨⟨2⟩, []⟩ ⟨1⟩ db' =
        storedRows ⟨⟨2⟩, []⟩ ⟨1⟩ (tableAt (oneVersion (version 1 0 97)) 2) := by
  have hvalue : (97 : UInt8) ≠ 0 := by decide
  generalize hlong : (List.replicate 8070 98 : Bytes) = long
  have hlength : long.length = 8070 := by rw [← hlong, List.length_replicate]
  obtain ⟨db', hupdate⟩ := tableAt_update 1 0 hvalue 2 (by omega : long.length ≤ 8079)
  have hcompletes : Completes ⟨1⟩ (tableAt (oneVersion (version 1 0 97)) 2)
      (.tupleUpdate 0 long none) db' := ⟨1, hupdate⟩
  refine ⟨db', hcompletes, ?_⟩
  refine (write_keeps_view_iff (tableAt_registered _ 2) (List.pairwise_singleton _ _)
    (tableAt_coded 1 0 97 2) hcompletes).mpr ?_
  have hchanges := tableAt_changes 1 0 hvalue 2 (by omega : long.length < 2 ^ 64)
  have hfate : updateFate 8111 0 (50 + long.length) = .stamped := by
    rw [hlength]
    decide
  have hcovers : ¬Covers ⟨⟨2⟩, []⟩ 2 := by decide
  have hlive : ¬Covers ⟨⟨2⟩, []⟩ (version 1 0 97).xmax := by decide
  rw [rowsLost, rowsGained, hchanges, hfate]
  simp [lostRow, revivedRow, nextRow, insertedRow, hcovers, hlive]

end OneVersion

end PostgressRs.Executor.SnapshotStability
