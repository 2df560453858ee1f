import PostgressRs.Lib.Transitions
import PostgressRs.Wal.LogIntegrity

/-!
How far the log is flushed, over runs of `append`, `flush` and `ensure_flushed`.
-/

namespace PostgressRs.Wal.FlushBookkeeping

open PostgressRs.Lib.ByteBuffer
open PostgressRs.Lib.Procedure
open PostgressRs.Lib.Transitions
open PostgressRs.Storage.PageStore
open PostgressRs.Wal.LogIntegrity
open PostgressRs.Wal.LogRecord
open PostgressRs.Wal.WriteAheadLog

/-- A call on the log, with the LSN that an `append` returned. -/
inductive LogEvent where
  | append (record : WALRecord) (returned : Option Nat)
  | flush
  | ensureFlushed (lsn : Nat)

section Steps

variable [Bincode]

/-- What an `append` that panics leaves to the other callers: the LSN is moved
before the record is written. -/
def reserved (record : WALRecord) (wal : WAL) : WAL :=
  if wal.segmentSize.toNat = 0 then wal
  else
    match serializeRecord record with
    | .error _ => wal
    | .ok data =>
        match (recordStart wal.currentLsn data.length wal.segmentSize.toNat).bind
            fun current => checkedAdd current data.length with
        | some lsn => { wal with currentLsn := lsn }
        | none => wal

inductive LogStep : WAL → LogEvent → WAL → Prop
  | appended {wal wal' : WAL} {record : WALRecord} {lsn : Nat} :
      append record wal = .ok lsn wal' → LogStep wal (.append record (some lsn)) wal'
  | failed {wal wal' : WAL} {record : WALRecord} {e : String} :
      append record wal = .err e wal' → LogStep wal (.append record none) wal'
  | panicked {wal : WAL} {record : WALRecord} :
      append record wal = .panic → LogStep wal (.append record none) (reserved record wal)
  | flushed {wal wal' : WAL} : flush wal = .ok () wal' → LogStep wal .flush wal'
  | ensured {wal wal' : WAL} {lsn : Nat} :
      ensureFlushed lsn wal = .ok () wal' → LogStep wal (.ensureFlushed lsn) wal'

/-- Only an `append` moves the end of the log, and only forward. -/
structure Extends (wal wal' : WAL) : Prop where
  current_le : wal.currentLsn ≤ wal'.currentLsn
  flushed_eq : wal'.flushedLsn = wal.flushedLsn

omit [Bincode] in
theorem writeRecord_not_err {wal wal' : WAL} {current : Nat} {data : Bytes} {e : String} :
    writeRecord current data wal ≠ .err e wal' := by
  intro h
  unfold writeRecord at h
  rw [bind_ok (read_apply _ _)] at h
  rcases bind_eq_err.mp h with h | ⟨segment, wal₁, _, h⟩
  · exact orPanic_not_err h
  · rw [EphemeralStorage.readPage_eq, bind_ok (ofExcept_ok _ _)] at h
    rcases bind_eq_err.mp h with h | ⟨page, wal₂, _, h⟩
    · exact orPanic_not_err h
    · cases h

/-- An `append` returns an error only if the record cannot be encoded. -/
theorem append_err {wal wal' : WAL} {record : WALRecord} {e : String}
    (h : append record wal = .err e wal') : wal' = wal := by
  rcases bind_eq_err.mp h with h | ⟨data, wal₁, hser, h⟩
  · exact ofExcept_eq_err h
  · obtain ⟨_, rfl⟩ := ofExcept_eq_ok.mp hser
    rw [bind_ok (read_apply _ _)] at h
    simp only [id_eq] at h
    split at h
    · exact absurd h orPanic_not_err
    · rcases bind_eq_err.mp h with h | ⟨current, wal₁, _, h⟩
      · exact absurd h orPanic_not_err
      · rcases bind_eq_err.mp h with h | ⟨lsn, wal₂, _, h⟩
        · exact absurd h orPanic_not_err
        · rw [bind_ok (modify_apply _ _)] at h
          rcases bind_eq_err.mp h with h | ⟨_, wal₃, _, h⟩
          · exact absurd h writeRecord_not_err
          · cases h

theorem reserved_extends (record : WALRecord) (wal : WAL) : Extends wal (reserved record wal) := by
  unfold reserved
  split
  · exact ⟨Nat.le_refl _, rfl⟩
  · split
    · exact ⟨Nat.le_refl _, rfl⟩
    · rename_i data _
      split
      · rename_i lsn hlsn
        obtain ⟨current, hstart, hadd⟩ := Option.bind_eq_some_iff.mp hlsn
        refine ⟨?_, rfl⟩
        unfold checkedAdd at hadd
        split at hadd
        · cases hadd
          calc
            wal.currentLsn ≤ current := by
              rw [recordStart_eq_some hstart]
              exact le_placeAt _ _ _
            _ ≤ current + data.length := Nat.le_add_right _ _
        · cases hadd
      · exact ⟨Nat.le_refl _, rfl⟩

/-- A record is placed behind the end of the log, which then is the record's end. -/
theorem append_extends {wal wal' : WAL} {record : WALRecord} {lsn : Nat}
    (h : append record wal = .ok lsn wal') :
    ∃ data, serializeRecord record = .ok data ∧ wal.currentLsn ≤ lsn ∧
      wal'.currentLsn = lsn + data.length ∧ wal'.flushedLsn = wal.flushedLsn := by
  obtain ⟨data, page, page', hdata, _, hstart, _, _, _, rfl⟩ := append_cases h
  refine ⟨data, hdata, ?_, rfl, rfl⟩
  rw [recordStart_eq_some hstart]
  exact le_placeAt _ _ _

omit [Bincode] in
theorem ensureFlushed_apply (lsn : Nat) (wal : WAL) :
    ensureFlushed lsn wal =
      if wal.flushedLsn < wal.currentLsn ∧ wal.flushedLsn ≤ lsn then flush wal else .ok () wal := by
  unfold ensureFlushed getFlushedLsn
  rw [bind_ok (read_apply _ _), bind_ok (read_apply _ _)]
  split
  · rfl
  · rfl

/-- What a call does to the two LSNs: it extends the log, flushes all of it, or
leaves the log as it is. -/
theorem logStep_cases {wal wal' : WAL} {event : LogEvent} (h : LogStep wal event wal') :
    (∃ record returned, event = .append record returned ∧ Extends wal wal') ∨
      ((event = .flush ∨ ∃ lsn, event = .ensureFlushed lsn ∧ wal.flushedLsn ≤ lsn) ∧
        flush wal = .ok () wal') ∨
      ∃ lsn, event = .ensureFlushed lsn ∧ wal' = wal ∧
        (wal.currentLsn ≤ wal.flushedLsn ∨ lsn < wal.flushedLsn) := by
  cases h with
  | appended happend =>
      obtain ⟨data, _, hle, hcurrent, hflushed⟩ := append_extends happend
      refine Or.inl ⟨_, _, rfl, ?_, hflushed⟩
      rw [hcurrent]
      exact Nat.le_trans hle (Nat.le_add_right _ _)
  | failed happend =>
      rw [append_err happend]
      exact Or.inl ⟨_, _, rfl, Nat.le_refl _, rfl⟩
  | panicked _ => exact Or.inl ⟨_, _, rfl, reserved_extends _ _⟩
  | flushed hflush => exact Or.inr (Or.inl ⟨Or.inl rfl, hflush⟩)
  | @ensured _ lsn hensure =>
      rw [ensureFlushed_apply] at hensure
      split at hensure
      · rename_i hneeded
        exact Or.inr (Or.inl ⟨Or.inr ⟨lsn, rfl, hneeded.2⟩, hensure⟩)
      · rename_i hneeded
        cases hensure
        refine Or.inr (Or.inr ⟨lsn, rfl, rfl, ?_⟩)
        omega

end Steps

section Runs

variable [Bincode]

/-- No record straddles the flushed part of the log. -/
structure Whole (wal : WAL) (lsn : Nat) (data : Bytes) : Prop where
  nonempty : 0 < data.length
  end_le : lsn + data.length ≤ wal.currentLsn
  side : wal.flushedLsn ≤ lsn ∨ lsn + data.length ≤ wal.flushedLsn

/-- The flushed part lies within the log, and every record that was appended is
on one side of its end. -/
structure Bookkept (past : List (Transition WAL LogEvent)) (wal : WAL) : Prop where
  flushed_le : wal.flushedLsn ≤ wal.currentLsn
  records : ∀ tr ∈ past, ∀ record lsn, tr.label = .append record (some lsn) →
    ∃ data, serializeRecord record = .ok data ∧ Whole wal lsn data

omit [Bincode] in
theorem Whole.extend {wal wal' : WAL} {lsn : Nat} {data : Bytes} (h : Whole wal lsn data)
    (hextends : Extends wal wal') : Whole wal' lsn data := by
  refine ⟨h.nonempty, Nat.le_trans h.end_le hextends.current_le, ?_⟩
  rw [hextends.flushed_eq]
  exact h.side

omit [Bincode] in
theorem Whole.flush {wal wal' : WAL} {lsn : Nat} {data : Bytes} (h : Whole wal lsn data)
    (hflush : flush wal = .ok () wal') : Whole wal' lsn data := by
  cases hflush
  exact ⟨h.nonempty, h.end_le, Or.inr h.end_le⟩

theorem flushed_mono {wal wal' : WAL} {event : LogEvent} (hle : wal.flushedLsn ≤ wal.currentLsn)
    (hstep : LogStep wal event wal') : wal.flushedLsn ≤ wal'.flushedLsn := by
  rcases logStep_cases hstep with ⟨_, _, _, hextends⟩ | ⟨_, hflush⟩ | ⟨_, _, rfl, _⟩
  · exact Nat.le_of_eq hextends.flushed_eq.symm
  · cases hflush
    exact hle
  · exact Nat.le_refl _

/-- `ensure_flushed` of a record's LSN covers the record, and does nothing if it
was covered. -/
theorem ensureFlushed_whole {wal wal' : WAL} {lsn : Nat} {data : Bytes} (h : Whole wal lsn data)
    (hstep : LogStep wal (.ensureFlushed lsn) wal') :
    lsn + data.length ≤ wal'.flushedLsn ∧
      (lsn + data.length ≤ wal.flushedLsn → wal' = wal) := by
  have hend := h.end_le
  have hnonempty := h.nonempty
  have hside := h.side
  rcases logStep_cases hstep with ⟨_, _, hevent, _⟩ | ⟨hevent, hflush⟩ | ⟨lsn', hevent, rfl, hkept⟩
  · cases hevent
  · rcases hevent with hevent | ⟨lsn', hevent, hneeded⟩
    · cases hevent
    · cases hevent
      cases hflush
      refine ⟨hend, ?_⟩
      intro hcovered
      omega
  · cases hevent
    refine ⟨?_, fun _ => rfl⟩
    omega

theorem bookkept_snoc {past : List (Transition WAL LogEvent)} {wal wal' : WAL} {event : LogEvent}
    (h : Bookkept past wal) (hle : wal'.flushedLsn ≤ wal'.currentLsn)
    (hold : ∀ lsn data, Whole wal lsn data → Whole wal' lsn data)
    (hnew : ∀ record lsn, event = .append record (some lsn) →
      ∃ data, serializeRecord record = .ok data ∧ Whole wal' lsn data) :
    Bookkept (past ++ [⟨wal, event, wal'⟩]) wal' := by
  refine ⟨hle, ?_⟩
  intro tr htr record lsn hlabel
  rcases List.mem_append.mp htr with htr | htr
  · obtain ⟨data, hdata, hwhole⟩ := h.records tr htr record lsn hlabel
    exact ⟨data, hdata, hold lsn data hwhole⟩
  · rw [List.mem_singleton.mp htr] at hlabel
    exact hnew record lsn hlabel

variable [BincodeRecords] [LawfulBincodeRecords]

/-- The record that a call has just appended lies behind the flushed part. -/
theorem whole_appended {wal wal' : WAL} {record : WALRecord} {lsn : Nat}
    (hle : wal.flushedLsn ≤ wal.currentLsn)
    (h : LogStep wal (.append record (some lsn)) wal') :
    ∃ data, serializeRecord record = .ok data ∧ Whole wal' lsn data := by
  cases h with
  | appended happend =>
      obtain ⟨data, hdata, hstart, hcurrent, hflushed⟩ := append_extends happend
      refine ⟨data, hdata, List.length_pos_iff.mpr (serializeRecord_ne_nil hdata), ?_, ?_⟩
      · rw [hcurrent]
      · rw [hflushed]
        exact Or.inl (Nat.le_trans hle hstart)

theorem bookkept_step {past : List (Transition WAL LogEvent)} {wal wal' : WAL} {event : LogEvent}
    (h : Bookkept past wal) (hstep : LogStep wal event wal') :
    Bookkept (past ++ [⟨wal, event, wal'⟩]) wal' := by
  rcases logStep_cases hstep with
    ⟨record, returned, rfl, hextends⟩ | ⟨hevent, hflush⟩ | ⟨lsn, rfl, rfl, _⟩
  · refine bookkept_snoc h ?_ (fun lsn data hwhole => hwhole.extend hextends) ?_
    · rw [hextends.flushed_eq]
      exact Nat.le_trans h.flushed_le hextends.current_le
    · intro record' lsn hlabel
      rw [hlabel] at hstep
      exact whole_appended h.flushed_le hstep
  · refine bookkept_snoc h ?_ (fun lsn data hwhole => hwhole.flush hflush) ?_
    · cases hflush
      exact Nat.le_refl _
    · rintro record lsn rfl
      simp at hevent
  · refine bookkept_snoc h h.flushed_le (fun lsn data hwhole => hwhole) ?_
    intro record lsn' hlabel
    cases hlabel

/-- Over every run of calls on one log, the flushed LSN grows within the log, and
`ensure_flushed` of an LSN that `append` returned covers that record, without a
flush if it was covered. -/
theorem flush_bookkeeping {segmentSize : UInt32} {trace : List (Transition WAL LogEvent)}
    {wal : WAL} (hrun : Run LogStep (WAL.new segmentSize) trace wal) :
    (∀ tr ∈ trace, tr.source.flushedLsn ≤ tr.target.flushedLsn ∧
      tr.target.flushedLsn ≤ tr.target.currentLsn) ∧
    ∀ before tr after lsn, trace = before ++ tr :: after → tr.label = .ensureFlushed lsn →
      ∀ earlier ∈ before, ∀ record, earlier.label = .append record (some lsn) →
        ∃ data, serializeRecord record = .ok data ∧
          lsn + data.length ≤ tr.target.flushedLsn ∧
          (lsn + data.length ≤ tr.source.flushedLsn → tr.target = tr.source) := by
  have hreach : ∀ before tr after, trace = before ++ tr :: after →
      Bookkept before tr.source ∧ Bookkept (before ++ [tr]) tr.target ∧
        LogStep tr.source tr.label tr.target := by
    intro before tr after htrace
    rw [htrace] at hrun
    obtain ⟨hbefore, hstep, _⟩ := Run.append_cons_inv hrun
    have hsource := Run.invariant_history Bookkept (fun _ _ => True)
      (fun past s l s' hs _ h => bookkept_step hs h) hbefore [] ⟨Nat.le_refl _, by simp⟩
      (fun _ _ => trivial)
    rw [List.nil_append] at hsource
    exact ⟨hsource, bookkept_step hsource hstep, hstep⟩
  constructor
  · intro tr htr
    obtain ⟨before, after, htrace⟩ := List.append_of_mem htr
    obtain ⟨hsource, htarget, hstep⟩ := hreach before tr after htrace
    exact ⟨flushed_mono hsource.flushed_le hstep, htarget.flushed_le⟩
  · intro before tr after lsn htrace hlabel earlier hearlier record happended
    obtain ⟨hsource, _, hstep⟩ := hreach before tr after htrace
    obtain ⟨data, hdata, hwhole⟩ := hsource.records earlier hearlier record lsn happended
    rw [hlabel] at hstep
    exact ⟨data, hdata, ensureFlushed_whole hwhole hstep⟩

end Runs

theorem flush_bookkeeping_begin :
    ∃ wal wal', Run LogStep (WAL.new 8192)
        [⟨WAL.new 8192, .append (.begin 1) (some 0), wal⟩, ⟨wal, .ensureFlushed 0, wal'⟩] wal' ∧
      (encodeRecord (.begin 1)).length ≤ wal'.flushedLsn := by
  have hsize : (encodeRecord (.begin 1)).length ≤ (8192 : UInt32).toNat := by decide
  obtain ⟨page, page', happend, _, _⟩ :=
    @append_eq _ (WAL.new 8192) (.begin 1) _ (by decide) rfl hsize 0 rfl (by decide)
  set wal := logged (WAL.new 8192) 0 (encodeRecord (.begin 1)) page'
  have hensure : ensureFlushed 0 wal =
      .ok () { wal with flushedLsn := wal.currentLsn, flushCount := wal.flushCount + 1 } := by
    have hunflushed : 0 < 0 + (encodeRecord (.begin 1)).length := by decide
    rw [ensureFlushed_apply, if_pos ⟨hunflushed, Nat.le_refl _⟩]
    rfl
  have hrun := Run.cons (LogStep.appended happend)
    (Run.cons (LogStep.ensured hensure) (Run.nil _))
  refine ⟨wal, _, hrun, ?_⟩
  obtain ⟨data, hdata, hcovered, _⟩ :=
    (flush_bookkeeping hrun).2 [_] _ [] 0 rfl rfl _ List.mem_cons_self (.begin 1) rfl
  cases hdata
  rw [Nat.zero_add] at hcovered
  exact hcovered

end PostgressRs.Wal.FlushBookkeeping
