import PostgressRs.Executor.HeapPrograms
import PostgressRs.Executor.InsertComplete

/-!
In which order inserts, updates and deletes write pages and log records.  A
change is known by the xid that is drawn for it: the new version bears it as its
`xmin`, the old one as its `xmax`.
-/

namespace PostgressRs.Executor.WriteAheadRule

open PostgressRs.BufferCache.PagePool
open PostgressRs.BufferCache.SharedCache
open PostgressRs.Executor.HeapAccess
open PostgressRs.Executor.HeapPrograms
open PostgressRs.Executor.HeapSteps
open PostgressRs.Executor.InsertComplete
open PostgressRs.Lib.ByteBuffer
open PostgressRs.Lib.Effects
open PostgressRs.Lib.Effects.Program
open PostgressRs.Lib.Procedure hiding ofExcept orPanic
open PostgressRs.Lib.Transitions
open PostgressRs.Lib.Utf8
open PostgressRs.Storage.PageRoundTrip
open PostgressRs.Storage.PageStore
open PostgressRs.Storage.SlottedPage
open PostgressRs.Types
open PostgressRs.Wal.LogRecord
open PostgressRs.Wal.WriteAheadLog

/-- The xid of the change that a record describes. -/
def recordXid : WALRecord → Option UInt64
  | .insert _ _ tup => some tup.xmin
  | .update _ _ oldTup _ => some oldTup.xmax
  | .delete _ _ tup => some tup.xmax
  | _ => none

section Order

/-- The order in which the heap functions draw xids and log records: the record
of one change is there before an xid is drawn for the next. -/
def logOrder : Option UInt64 → Event heapEffects → Option (Option UInt64)
  | none, ⟨.allocateXid, xid⟩ => some (some xid)
  | some _, ⟨.allocateXid, _⟩ => none
  | none, ⟨.append _, _⟩ => none
  | some xid, ⟨.append record, .ok _⟩ => if recordXid record = some xid then some none else none
  | st, _ => some st

/-- The program logs the change it has drawn an xid for before it returns. -/
abbrev LogsChanges {α : Type} (st : Option UInt64) (p : HeapProgram α) : Prop :=
  Follows logOrder (fun _ st' => st' = none) st p

/-- The effects that neither draw an xid nor log a record. -/
theorem quiet_effect {op : HeapOp} (st : Option UInt64) (hdraw : op ≠ .allocateXid)
    (hlog : ∀ record, op ≠ .append record) : Steady logOrder st (effect op) := by
  refine steady_call fun answer => ?_
  cases op with
  | allocateXid => exact absurd rfl hdraw
  | append record => exact absurd rfl (hlog record)
  | getRelation relOid => cases st <;> rfl
  | readPage pageId => cases st <;> rfl
  | writePage pageId data => cases st <;> rfl
  | setRelation relOid rel => cases st <;> rfl

theorem quiet_relationState (st : Option UInt64) (relOid : Oid) :
    Steady logOrder st (relationState relOid) :=
  steady_bind (quiet_effect st (by simp) (by simp)) fun _ => steady_ofExcept st _

theorem quiet_loadPage (st : Option UInt64) (pageId : PageId) :
    Steady logOrder st (loadPage pageId) := by
  refine steady_bind (quiet_effect st (by simp) (by simp)) fun _ => ?_
  exact steady_bind (steady_ofExcept st _) fun _ => steady_orPanic st _

theorem quiet_storePage (st : Option UInt64) (pageId : PageId) (page : HeapPage) :
    Steady logOrder st (storePage pageId page) := by
  refine steady_bind (steady_orPanic st _) fun data => ?_
  exact steady_bind (quiet_effect st (by simp) (by simp)) fun _ => steady_ofExcept st _

theorem quiet_setRelation (st : Option UInt64) (relOid : Oid) (rel : Relation) :
    Steady logOrder st (effect (.setRelation relOid rel)) :=
  quiet_effect st (by simp) (by simp)

theorem logsChanges_logChange {xid : UInt64} {record : WALRecord}
    (h : recordXid record = some xid) : LogsChanges (some xid) (logChange record) := by
  apply follows_bind
  intro answer
  cases answer with
  | ok lsn => exact ⟨none, if_pos h, rfl⟩
  | error e => exact ⟨some xid, rfl, trivial⟩

theorem logsChanges_bind {α β : Type} {st : Option UInt64} {p : HeapProgram α}
    {f : α → HeapProgram β} (hp : LogsChanges st p) (hf : ∀ a, LogsChanges none (f a)) :
    LogsChanges st (p >>= f) := by
  apply follows_bind
  apply follows_imp hp
  rintro a st' rfl
  exact hf a

theorem logsChanges_pure {α : Type} (a : α) : LogsChanges none (pure a : HeapProgram α) := rfl

/-- A change: an xid is drawn, and everything that follows is done for it. -/
theorem logsChanges_draw {β : Type} {f : UInt64 → HeapProgram β}
    (hf : ∀ xid, LogsChanges (some xid) (f xid)) :
    LogsChanges none (effect .allocateXid >>= f) := by
  apply follows_bind
  intro xid
  exact ⟨some xid, rfl, hf xid⟩

end Order

section Operations

variable [Bincode]

omit [Bincode] in
theorem quiet_insertPage (rel : Relation) : Steady logOrder none (insertPageProgram rel) := by
  unfold insertPageProgram
  generalize HeapPage.new = page
  split
  · exact steady_bind (quiet_storePage none _ _) fun _ => steady_pure none _
  · exact steady_pure none _

theorem logsChanges_insert (relOid : Oid) (values : List Bytes) :
    LogsChanges none (insertProgram relOid values) := by
  refine steady_bind (quiet_relationState none relOid) fun rel => ?_
  refine steady_bind (quiet_insertPage rel) fun ⟨rel', pageId⟩ => ?_
  refine steady_bind (quiet_loadPage none pageId) fun heapPage => ?_
  refine logsChanges_draw fun xid => ?_
  refine steady_bind (steady_ofExcept _ _) fun encoded => ?_
  refine steady_bind (steady_orPanic _ _) fun ⟨heapPage', slot⟩ => ?_
  cases slot with
  | none =>
      refine steady_bind (steady_orPanic _ _) fun newPageId => ?_
      refine steady_bind (steady_orPanic _ _) fun newHeapPage => ?_
      refine steady_bind (quiet_storePage _ _ _) fun _ => ?_
      refine steady_bind (quiet_storePage _ _ _) fun _ => ?_
      refine steady_bind (quiet_setRelation _ _ _) fun _ => ?_
      exact logsChanges_bind (logsChanges_logChange rfl) fun _ => logsChanges_pure ()
  | some slot =>
      refine steady_bind (quiet_storePage _ _ _) fun _ => ?_
      refine steady_bind (quiet_setRelation _ _ _) fun _ => ?_
      exact logsChanges_bind (logsChanges_logChange rfl) fun _ => logsChanges_pure ()

theorem logsChanges_updateTuple (relOid : Oid) (pageId : PageId) (heapPage : HeapPage)
    (slotIdx : Nat) (tup : Tuple) (newData : Bytes) :
    LogsChanges none (updateTupleProgram relOid pageId heapPage slotIdx tup newData) := by
  refine logsChanges_draw fun xid => ?_
  refine steady_bind (steady_ofExcept _ _) fun newEncoded => ?_
  refine steady_bind (steady_orPanic _ _) fun ⟨heapPage', hotSlot⟩ => ?_
  refine steady_bind (steady_ofExcept _ _) fun oldEncoded => ?_
  refine steady_bind (steady_orPanic _ _) fun heapPage'' => ?_
  cases hotSlot with
  | some newSlot =>
      refine steady_bind (quiet_storePage _ _ _) fun _ => ?_
      refine steady_bind (steady_orPanic _ _) fun newBytes => ?_
      refine steady_bind (steady_ofExcept _ _) fun newTup => ?_
      exact logsChanges_bind (logsChanges_logChange rfl) fun _ => logsChanges_pure _
  | none =>
      refine steady_bind (steady_ofExcept _ _) fun newEncoded' => ?_
      refine steady_bind (steady_orPanic _ _) fun added => ?_
      refine steady_bind (quiet_storePage _ _ _) fun _ => ?_
      exact logsChanges_bind (logsChanges_logChange rfl) fun _ => logsChanges_pure _

theorem logsChanges_deleteTuple (relOid : Oid) (pageId : PageId) (heapPage : HeapPage)
    (slotIdx : Nat) (tup : Tuple) :
    LogsChanges none (deleteTupleProgram relOid pageId heapPage slotIdx tup) := by
  refine logsChanges_draw fun xid => ?_
  refine steady_bind (steady_ofExcept _ _) fun encoded => ?_
  refine steady_bind (steady_orPanic _ _) fun heapPage' => ?_
  refine steady_bind (quiet_storePage _ _ _) fun _ => ?_
  exact logsChanges_bind (logsChanges_logChange rfl) fun _ => logsChanges_pure _

theorem logsChanges_update (relOid : Oid) (columnIdx : Nat) (newValue : Bytes)
    (filter : Option Filter) :
    LogsChanges none (updateProgram relOid columnIdx newValue filter) := by
  refine steady_bind (quiet_relationState none relOid) fun rel => ?_
  induction rel.pages with
  | nil => exact logsChanges_pure 0
  | cons pageId pageIds ih =>
      refine steady_bind (quiet_loadPage none pageId) fun heapPage => ?_
      refine logsChanges_bind ?_ fun _ => logsChanges_bind ih fun _ => logsChanges_pure _
      generalize tuplesToUpdate heapPage rel.tupleDesc columnIdx newValue filter = tuples
      induction tuples generalizing heapPage with
      | nil => exact logsChanges_pure ()
      | cons entry tuples ihTuples =>
          obtain ⟨slotIdx, tup, newData⟩ := entry
          exact logsChanges_bind (logsChanges_updateTuple _ _ _ _ _ _) fun heapPage' =>
            ihTuples heapPage'

theorem logsChanges_delete (relOid : Oid) (filter : Option Filter) :
    LogsChanges none (deleteProgram relOid filter) := by
  refine steady_bind (quiet_relationState none relOid) fun rel => ?_
  induction rel.pages with
  | nil => exact logsChanges_pure 0
  | cons pageId pageIds ih =>
      refine steady_bind (quiet_loadPage none pageId) fun heapPage => ?_
      refine logsChanges_bind ?_ fun _ => logsChanges_bind ih fun _ => logsChanges_pure _
      generalize matchingTuples heapPage rel.tupleDesc filter = tuples
      induction tuples generalizing heapPage with
      | nil => exact logsChanges_pure ()
      | cons entry tuples ihTuples =>
          obtain ⟨slotIdx, tup⟩ := entry
          exact logsChanges_bind (logsChanges_deleteTuple _ _ _ _ _) fun heapPage' =>
            ihTuples heapPage'

inductive HeapCall where
  | insert (relOid : Oid) (values : List Bytes)
  | update (relOid : Oid) (columnIdx : Nat) (newValue : Bytes) (filter : Option Filter)
  | delete (relOid : Oid) (filter : Option Filter)

/-- The number of rows an update or a delete returns is not looked at here. -/
def HeapCall.program : HeapCall → HeapProgram Unit
  | insert relOid values => insertProgram relOid values
  | update relOid columnIdx newValue filter => do
      let _ ← updateProgram relOid columnIdx newValue filter
      pure ()
  | delete relOid filter => do
      let _ ← deleteProgram relOid filter
      pure ()

theorem logsChanges_call (call : HeapCall) : LogsChanges none call.program := by
  cases call with
  | insert relOid values => exact logsChanges_insert relOid values
  | update relOid columnIdx newValue filter =>
      exact logsChanges_bind (logsChanges_update _ _ _ _) fun _ => logsChanges_pure ()
  | delete relOid filter =>
      exact logsChanges_bind (logsChanges_delete _ _) fun _ => logsChanges_pure ()

end Operations

section Rule

variable [Bincode] {σ : Type} [StorageTrait σ]

/-- The page image holds a tuple that bears the xid. -/
def Carries (data : Bytes) (xid : UInt64) : Prop :=
  ∃ page, HeapPage.deserialize data = some page ∧
    ∃ bytes ∈ page.tuples, ∃ tup, deserializeTuple bytes = .ok tup ∧
      (tup.xmin = xid ∨ tup.xmax = xid)

/-- `write` puts a page image that bears `xid` into storage, after `xid` was drawn
and the effects `mid` have followed. -/
structure Stores (trace : List (Transition (Database σ) (Event heapEffects))) (xid : UInt64)
    (mid : List (Transition (Database σ) (Event heapEffects))) : Prop where
  split : ∃ before draw write after, trace = before ++ draw :: (mid ++ write :: after) ∧
    draw.label = ⟨.allocateXid, xid⟩ ∧
    ∃ pageId data answer, write.label = ⟨.writePage pageId data, answer⟩ ∧ Carries data xid

/-- The record was appended. -/
def Appended (tr : Transition (Database σ) (Event heapEffects)) (record : WALRecord) : Prop :=
  ∃ lsn, tr.label = ⟨.append record, .ok lsn⟩

/-- No page image with a version or a stamp of the operation is written before
its record is in the log. -/
def LogsFirst (trace : List (Transition (Database σ) (Event heapEffects))) : Prop :=
  ∀ xid mid, Stores trace xid mid →
    ∃ tr ∈ mid, ∃ record, Appended tr record ∧ recordXid record = some xid

/-- A page image is written that bears the xid which was drawn last, with nothing
logged since. -/
def StoresUnlogged (trace : List (Transition (Database σ) (Event heapEffects))) : Prop :=
  ∃ xid mid, Stores trace xid mid ∧ ∀ tr ∈ mid, ∀ record, ¬Appended tr record

def callTrace (db : Database σ) (call : HeapCall) :
    List (Transition (Database σ) (Event heapEffects)) :=
  trace heapMachine call.program db

omit [Bincode] [StorageTrait σ] in
/-- The first record that is logged after an xid was drawn is that of its change. -/
theorem appended_of_accepted {xid : UInt64} {st : Option UInt64}
    {mid : List (Transition (Database σ) (Event heapEffects))}
    (h : after logOrder (some xid) mid = some st) :
    (∀ tr ∈ mid, ∀ record, ¬Appended tr record) ∨
      ∃ tr ∈ mid, ∃ record, Appended tr record ∧ recordXid record = some xid := by
  induction mid with
  | nil => exact Or.inl (by simp)
  | cons tr mid ih =>
      rw [after_cons] at h
      obtain ⟨st', hstep, hrest⟩ := Option.bind_eq_some_iff.mp h
      by_cases happended : ∃ record, Appended tr record
      · obtain ⟨record, lsn, hlabel⟩ := happended
        rw [hlabel] at hstep
        by_cases hxid : recordXid record = some xid
        · exact Or.inr ⟨tr, List.mem_cons_self, record, ⟨lsn, hlabel⟩, hxid⟩
        · rw [logOrder, if_neg hxid] at hstep
          cases hstep
      · have hopen : st' = some xid := by
          rcases tr with ⟨db, ⟨op, answer⟩, db'⟩
          cases op with
          | allocateXid => cases hstep
          | append record =>
              cases answer with
              | ok lsn => exact absurd ⟨record, lsn, rfl⟩ happended
              | error e =>
                  cases hstep
                  rfl
          | getRelation relOid =>
              cases hstep
              rfl
          | readPage pageId =>
              cases hstep
              rfl
          | writePage pageId data =>
              cases hstep
              rfl
          | setRelation relOid rel =>
              cases hstep
              rfl
        rw [hopen] at hrest
        rcases ih hrest with hnone | ⟨tr', htr', hrecord⟩
        · refine Or.inl ?_
          intro tr' htr' record happ
          rcases List.mem_cons.mp htr' with rfl | htr'
          · exact happended ⟨record, happ⟩
          · exact hnone tr' htr' record happ
        · exact Or.inr ⟨tr', List.mem_cons_of_mem _ htr', hrecord⟩

/-- An operation logs first exactly if it stores nothing that it has not logged. -/
theorem logsFirst_iff (db : Database σ) (call : HeapCall) :
    LogsFirst (callTrace db call) ↔ ¬StoresUnlogged (callTrace db call) := by
  constructor
  · rintro hfirst ⟨xid, mid, hstores, hnone⟩
    obtain ⟨tr, htr, record, happended, _⟩ := hfirst xid mid hstores
    exact hnone tr htr record happended
  · intro hunlogged xid mid hstores
    obtain ⟨before, draw, write, rest, htrace, hdraw, _⟩ := hstores.split
    obtain ⟨st, hst⟩ := (logsChanges_call call).accepts heapMachine db
    rw [← callTrace, htrace, after_append] at hst
    obtain ⟨st₁, _, hst⟩ := Option.bind_eq_some_iff.mp hst
    rw [after_cons, hdraw] at hst
    obtain ⟨st₂, hstep, hst⟩ := Option.bind_eq_some_iff.mp hst
    have hopen : st₂ = some xid := by
      cases st₁ with
      | none =>
          cases hstep
          rfl
      | some xid' => cases hstep
    rw [hopen, after_append] at hst
    obtain ⟨st₃, hmid, _⟩ := Option.bind_eq_some_iff.mp hst
    rcases appended_of_accepted hmid with hnone | hlogged
    · exact absurd ⟨xid, mid, hstores, hnone⟩ hunlogged
    · exact hlogged

/-- The call finds no row to work on. -/
def FindsNothing (db : Database σ) : HeapCall → Prop
  | .insert relOid _ => db.cache.rels.lookup relOid = none
  | .update relOid columnIdx newValue filter =>
      ∀ rel, db.cache.rels.lookup relOid = some rel → ∀ p ∈ rel.pages,
        ∀ page, PageAt db.cache.disk.storage p page →
          tuplesToUpdate page rel.tupleDesc columnIdx newValue filter = []
  | .delete relOid filter =>
      ∀ rel, db.cache.rels.lookup relOid = some rel → ∀ p ∈ rel.pages,
        ∀ page, PageAt db.cache.disk.storage p page →
          matchingTuples page rel.tupleDesc filter = []

/-- No xid is drawn. -/
def DrawsNothing (trace : List (Transition (Database σ) (Event heapEffects))) : Prop :=
  ∀ tr ∈ trace, ∀ xid, tr.label ≠ ⟨.allocateXid, xid⟩

omit [StorageTrait σ] in
theorem DrawsNothing.logsFirst {trace : List (Transition (Database σ) (Event heapEffects))}
    (h : DrawsNothing trace) : LogsFirst trace := by
  intro xid mid hstores
  obtain ⟨before, draw, write, rest, htrace, hdraw, _⟩ := hstores.split
  refine absurd hdraw (h draw ?_ xid)
  rw [htrace]
  exact List.mem_append_right _ List.mem_cons_self

theorem drawsNothing_bind {α β : Type} {p : HeapProgram α} {f : α → HeapProgram β}
    {db : Database σ} (hp : DrawsNothing (trace heapMachine p db))
    (hf : ∀ a db', run heapMachine p db = .ok a db' → DrawsNothing (trace heapMachine (f a) db')) :
    DrawsNothing (trace heapMachine (p >>= f) db) :=
  forall_trace_bind heapMachine hp hf

omit [Bincode] [StorageTrait σ] in
theorem drawsNothing_nil :
    DrawsNothing ([] : List (Transition (Database σ) (Event heapEffects))) := by
  simp [DrawsNothing]

theorem drawsNothing_relationState (relOid : Oid) (db : Database σ) :
    DrawsNothing (trace heapMachine (relationState relOid) db) := by
  refine drawsNothing_bind (forall_trace_call _ ?_) fun a db' _ => ?_
  · intro answer db' _ xid
    simp
  · rw [trace_ofExcept]
    exact drawsNothing_nil

theorem drawsNothing_loadPage (pageId : PageId) (db : Database σ) :
    DrawsNothing (trace heapMachine (loadPage pageId) db) := by
  refine drawsNothing_bind (forall_trace_call _ ?_) fun a db' _ => ?_
  · intro answer db' _ xid
    simp
  · refine drawsNothing_bind ?_ fun data db'' _ => ?_
    · rw [trace_ofExcept]
      exact drawsNothing_nil
    · rw [trace_orPanic]
      exact drawsNothing_nil

/-- A loop over pages on each of which there is nothing to do. -/
theorem drawsNothing_pages {ε : Type} {work : HeapPage → List ε}
    {loop : PageId → List ε → HeapPage → HeapProgram Unit}
    {pages : List PageId → HeapProgram Nat}
    (hnil : pages [] = pure 0)
    (hcons : ∀ p ids, pages (p :: ids) = do
      let heapPage ← loadPage p
      loop p (work heapPage) heapPage
      let count ← pages ids
      pure ((work heapPage).length + count))
    (hloop : ∀ p page, loop p [] page = pure ()) {db : Database σ} {ids : List PageId}
    (h : ∀ p ∈ ids, ∀ page, PageAt db.cache.disk.storage p page → work page = []) :
    DrawsNothing (trace heapMachine (pages ids) db) := by
  induction ids with
  | nil =>
      rw [hnil]
      exact drawsNothing_nil
  | cons p ids ih =>
      rw [hcons]
      refine drawsNothing_bind (drawsNothing_loadPage p db) fun page db' hload => ?_
      rw [run_loadPage] at hload
      obtain ⟨hpage, rfl⟩ := readHeapPage_eq_ok.mp hload
      rw [h p List.mem_cons_self page hpage, hloop]
      refine drawsNothing_bind drawsNothing_nil fun _ db'' hpure => ?_
      cases hpure
      refine drawsNothing_bind (ih fun q hq => h q (List.mem_cons_of_mem _ hq)) fun count _ _ => ?_
      exact drawsNothing_nil

theorem FindsNothing.drawsNothing {db : Database σ} {call : HeapCall} (h : FindsNothing db call) :
    DrawsNothing (callTrace db call) := by
  cases call with
  | insert relOid values =>
      refine drawsNothing_bind (drawsNothing_relationState relOid db) fun rel db' hrel => ?_
      rw [run_relationState] at hrel
      obtain ⟨hlookup, _⟩ := getRelationState_eq_ok.mp hrel
      have hnone : db.cache.rels.lookup relOid = none := h
      rw [hnone] at hlookup
      cases hlookup
  | update relOid columnIdx newValue filter =>
      refine drawsNothing_bind ?_ fun _ _ _ => drawsNothing_nil
      refine drawsNothing_bind (drawsNothing_relationState relOid db) fun rel db' hrel => ?_
      rw [run_relationState] at hrel
      obtain ⟨hlookup, rfl⟩ := getRelationState_eq_ok.mp hrel
      exact drawsNothing_pages rfl (fun _ _ => rfl) (fun _ _ => rfl) (h rel hlookup)
  | delete relOid filter =>
      refine drawsNothing_bind ?_ fun _ _ _ => drawsNothing_nil
      refine drawsNothing_bind (drawsNothing_relationState relOid db) fun rel db' hrel => ?_
      rw [run_relationState] at hrel
      obtain ⟨hlookup, rfl⟩ := getRelationState_eq_ok.mp hrel
      exact drawsNothing_pages rfl (fun _ _ => rfl) (fun _ _ => rfl) (h rel hlookup)

/-- The calls of a run, each with the database it starts from.  A call that fails
or panics leaves what it has done so far. -/
def calls (db : Database σ) : List HeapCall → List (Database σ × HeapCall)
  | [] => []
  | call :: rest => (db, call) :: calls (last heapMachine call.program db) rest

/-- In a run of inserts, updates and deletes the rule is kept as long as no call
finds a row to work on; and it is kept only if no call stores anything: whatever
is stored is stored before it is logged. -/
theorem write_ahead_iff (db : Database σ) (run : List HeapCall) :
    ((∀ step ∈ calls db run, FindsNothing step.1 step.2) →
      ∀ step ∈ calls db run, LogsFirst (callTrace step.1 step.2)) ∧
    ((∀ step ∈ calls db run, LogsFirst (callTrace step.1 step.2)) ↔
      ∀ step ∈ calls db run, ¬StoresUnlogged (callTrace step.1 step.2)) := by
  constructor
  · intro h step hstep
    exact (h step hstep).drawsNothing.logsFirst
  · exact forall₂_congr fun step _ => logsFirst_iff step.1 step.2

end Rule

section Insert

variable [Bincode] {σ : Type} [StorageTrait σ] [LawfulStorage σ] {db : Database σ} {relOid : Oid}
  {rel : Relation} {values : List Bytes} {page page' : HeapPage} {encoded data : Bytes}
  {slot : UInt16}

omit [LawfulStorage σ] in
theorem storesUnlogged_bind {α β : Type} {p : HeapProgram α} {f : α → HeapProgram β}
    {db' : Database σ} {a : α} (hrun : run heapMachine p db = .ok a db')
    (h : StoresUnlogged (trace heapMachine (f a) db')) :
    StoresUnlogged (trace heapMachine (p >>= f) db) := by
  obtain ⟨xid, mid, ⟨before, draw, write, rest, htrace, hlabels⟩, hnone⟩ := h
  refine ⟨xid, mid, ⟨trace heapMachine p db ++ before, draw, write, rest, ?_, hlabels⟩, hnone⟩
  rw [trace_bind_ok _ hrun, htrace, List.append_assoc]

omit [StorageTrait σ] [LawfulStorage σ] in
/-- A write right after an xid was drawn. -/
theorem storesUnlogged_cons {draw write : Transition (Database σ) (Event heapEffects)}
    {rest : List (Transition (Database σ) (Event heapEffects))} {xid : UInt64} {pageId : PageId}
    {answer : Except String Unit} (hdraw : draw.label = ⟨.allocateXid, xid⟩)
    (hwrite : write.label = ⟨.writePage pageId data, answer⟩) (hcarries : Carries data xid) :
    StoresUnlogged (draw :: write :: rest) :=
  ⟨xid, [], ⟨[], draw, write, rest, rfl, hdraw, pageId, data, answer, hwrite, hcarries⟩, by simp⟩

theorem trace_storePage (pageId : PageId) (hdata : page'.serialize = some data)
    (db : Database σ) :
    ∃ db', run heapMachine (storePage pageId page') db = .ok () db' ∧
      trace heapMachine (storePage pageId page') db =
        [⟨db, ⟨.writePage pageId data, .ok ()⟩, db'⟩] := by
  have hok := LawfulStorage.write_ok db.cache.disk.storage pageId data
  rcases hwritten : writePage db.cache.disk.storage pageId data with ⟨result, storage⟩
  rw [hwritten] at hok
  simp only at hok
  subst hok
  have hanswer : heapMachine (.writePage pageId data) db =
      some (.ok (), { db with cache := withStorage db.cache storage }) := by
    simp [heapMachine, answered, onCache, onDisk, within, writeStorage, hwritten, withStorage]
  have hstore : storePage pageId page' =
      @perform heapEffects Unit (.writePage pageId data) fun answer => ofExcept answer := by
    unfold storePage
    rw [hdata]
    rfl
  refine ⟨{ db with cache := withStorage db.cache storage }, ?_, ?_⟩
  · rw [hstore]
    simp only [run, hanswer]
    rfl
  · rw [hstore]
    simp only [trace, hanswer]
    rfl

/-- The page is in storage before the record is appended. -/
theorem insert_storesUnlogged (hrel : db.cache.rels.lookup relOid = some rel)
    (hpage : PageAt (openStorage db.cache.disk.storage rel) (openPage rel) page)
    (hencoded : serializeTuple (newTuple values db.wal.currentXid) = .ok encoded)
    (hadd : page.addTuple encoded = some (page', some slot))
    (hdata : page'.serialize = some data) (hcarries : Carries data db.wal.currentXid) :
    StoresUnlogged (callTrace db (.insert relOid values)) := by
  have hget : run heapMachine (relationState relOid) db = .ok rel db := by
    rw [run_relationState]
    exact getRelationState_eq_ok.mpr ⟨hrel, rfl⟩
  have hopen := insertPage_apply db rel
  rw [← run_insertPage] at hopen
  set db₁ : Database σ :=
    { db with cache := withStorage db.cache (openStorage db.cache.disk.storage rel) }
  have hload : run heapMachine (loadPage (openPage rel)) db₁ = .ok page db₁ := by
    rw [run_loadPage]
    exact readHeapPage_eq_ok.mpr ⟨hpage, rfl⟩
  refine storesUnlogged_bind hget (storesUnlogged_bind hopen (storesUnlogged_bind hload ?_))
  have hdraw : heapMachine .allocateXid db₁ = some (db.wal.currentXid,
      { db₁ with wal := { db₁.wal with currentXid := db₁.wal.currentXid + 1 } }) := rfl
  set db₂ : Database σ := { db₁ with wal := { db₁.wal with currentXid := db₁.wal.currentXid + 1 } }
  have hdrawRun : run heapMachine (effect .allocateXid) db₁ = .ok db.wal.currentXid db₂ := rfl
  have hserialize : run heapMachine
      (ofExcept (serializeTuple (newTuple values db.wal.currentXid))) db₂ = .ok encoded db₂ := by
    rw [run_ofExcept, hencoded]
    rfl
  have haddRun : run heapMachine (orPanic (page.addTuple encoded)) db₂ =
      .ok (page', some slot) db₂ := by
    rw [run_orPanic, hadd]
    rfl
  obtain ⟨db₃, hstoreRun, hstore⟩ := trace_storePage (openPage rel) hdata db₂
  rw [trace_bind_ok _ hdrawRun, trace_bind_ok _ hserialize, trace_ofExcept,
    trace_bind_ok _ haddRun, trace_orPanic, trace_bind_ok _ hstoreRun, hstore]
  exact storesUnlogged_cons rfl rfl hcarries

theorem carries_image [LawfulBincode] {xid : UInt64} (hwell : WellFormed page)
    (hnormal : AllNormal page) (hmem : encoded ∈ page.tuples)
    (hencoded : serializeTuple (newTuple values xid) = .ok encoded) :
    Carries (image page) xid := by
  refine ⟨stored page, deserialize_image hwell, encoded, ?_, newTuple values xid,
    LawfulBincode.deserialize_serialize hencoded, Or.inl rfl⟩
  rw [stored_tuples hwell hnormal]
  exact hmem

/-- The first insert into a relation without pages. -/
theorem first_insert_storesUnlogged [LawfulBincode]
    (hrel : db.cache.rels.lookup relOid = some rel) (hempty : rel.pages = [])
    (hencoded : serializeTuple (newTuple values db.wal.currentXid) = .ok encoded)
    (hsize : encoded.length + 30 ≤ 8192) :
    StoresUnlogged (callTrace db (.insert relOid values)) := by
  obtain ⟨_, _, hheld⟩ := held_firstPage hempty db.cache.disk.storage
  obtain ⟨hadd, hwell⟩ := addTuple_firstPage hencoded hsize
  have hnormal := allNormal_stored wellFormed_new allNormal_new
  refine insert_storesUnlogged hrel hheld.pageAt hencoded hadd (serialize_eq_image hwell) ?_
  refine carries_image hwell (allNormal_appended hnormal encoded) ?_ hencoded
  exact List.mem_append_right _ List.mem_cons_self

end Insert

theorem insert_not_logsFirst :
    ¬LogsFirst (callTrace (freshDatabase [emptyTable]) (.insert ⟨1⟩ (["a"].map asBytes))) := by
  rw [logsFirst_iff, not_not]
  have hrel : (freshDatabase [emptyTable]).cache.rels.lookup ⟨1⟩ = some emptyTable := rfl
  have hbytes : asBytes "a" = [97] := asBytes_replicate 1 'a' 97 (by decide)
  have hshort : (asBytes "a").length ≤ 8112 := by
    rw [hbytes, List.length_singleton]
    omega
  obtain ⟨encoded, hencoded, hsize⟩ :=
    serialize_oneValue hshort (freshDatabase [emptyTable]).wal.currentXid
  exact first_insert_storesUnlogged hrel rfl hencoded (by omega)

end PostgressRs.Executor.WriteAheadRule
