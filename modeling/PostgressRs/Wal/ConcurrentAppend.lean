import Mathlib.Logic.Function.Basic
import PostgressRs.Lib.Transitions
import PostgressRs.Wal.LogIntegrity

/-!
Concurrent calls of `append` on one log.  The lock is held only while the LSN
range is reserved; the segment's page is read, and written back, in later steps
of their own.
-/

namespace PostgressRs.Wal.ConcurrentAppend

open PostgressRs.Lib.ByteBuffer
open PostgressRs.Lib.Procedure
open PostgressRs.Lib.Transitions
open PostgressRs.Storage.PageStore
open PostgressRs.Types
open PostgressRs.Wal.LogIntegrity
open PostgressRs.Wal.LogRecord
open PostgressRs.Wal.WriteAheadLog

/-- How far a call has come. -/
inductive AppendCall where
  | idle
  | reserved (lsn : Nat) (data : Bytes)
  | fetched (lsn : Nat) (data page : Bytes)
  | returned (lsn : Nat) (data : Bytes)

/-- The log and the calls on it. -/
structure Machine where
  wal : WAL
  calls : Nat → AppendCall

def Machine.new (segmentSize : UInt32) : Machine := ⟨WAL.new segmentSize, fun _ => .idle⟩

inductive Action where
  | reserve (call : Nat) (record : WALRecord)
  | readSegment (call : Nat)
  | writeSegment (call : Nat)

def step [Bincode] (m : Machine) : Action → Option Machine
  | .reserve call record =>
      match m.calls call, serializeRecord record with
      | .idle, .ok data => do
          let segmentSize := m.wal.segmentSize.toNat
          if segmentSize = 0 then none
          else
            let current ← recordStart m.wal.currentLsn data.length segmentSize
            let lsn ← checkedAdd current data.length
            pure
              { wal := { m.wal with currentLsn := lsn }
                calls := Function.update m.calls call (.reserved current data) }
      | _, _ => none
  | .readSegment call =>
      match m.calls call with
      | .reserved lsn data =>
          match readPage m.wal.storage (segmentPage m.wal.segmentSize.toNat lsn) with
          | .ok page =>
              some { m with calls := Function.update m.calls call (.fetched lsn data page) }
          | .error _ => none
      | _ => none
  | .writeSegment call =>
      match m.calls call with
      | .fetched lsn data page => do
          let segmentSize := m.wal.segmentSize.toNat
          let page ← copyFromSlice (growTo segmentSize page) (lsn % segmentSize) data
          pure
            { wal :=
                { m.wal with
                  storage := (writePage m.wal.storage (segmentPage segmentSize lsn) page).2 }
              calls := Function.update m.calls call (.returned lsn data) }
      | _ => none

def MachineStep [Bincode] (m : Machine) (action : Action) (m' : Machine) : Prop :=
  step m action = some m'

section Overlap

/-- The range that a call has reserved. -/
def AppendCall.range : AppendCall → Option (Nat × Bytes)
  | .idle => none
  | .reserved lsn data => some (lsn, data)
  | .fetched lsn data _ => some (lsn, data)
  | .returned lsn data => some (lsn, data)

/-- No call reads a segment's page while another one is between its read and its
write of that page, and the log stays below 2^32 segments. -/
def NoOverlap [Bincode] (m : Machine) : Action → Prop
  | .reserve _ record =>
      ∀ data, serializeRecord record = .ok data →
        placeAt m.wal.segmentSize.toNat m.wal.currentLsn data.length <
          2 ^ 32 * m.wal.segmentSize.toNat
  | .readSegment call =>
      ∀ lsn data, m.calls call = .reserved lsn data →
        ∀ other lsn' data' page, m.calls other = .fetched lsn' data' page →
          segmentPage m.wal.segmentSize.toNat lsn' ≠ segmentPage m.wal.segmentSize.toNat lsn
  | .writeSegment _ => True

/-- Ranges are apart, a page that was read is still the one in the store, and
what was returned is in the store. -/
structure Intact (m : Machine) : Prop where
  below : ∀ i lsn data, (m.calls i).range = some (lsn, data) →
    lsn + data.length ≤ m.wal.currentLsn ∧ lsn < 2 ^ 32 * m.wal.segmentSize.toNat
  apart : ∀ i j lsn data lsn' data', i ≠ j → (m.calls i).range = some (lsn, data) →
    (m.calls j).range = some (lsn', data') → Apart lsn data lsn' data'
  fresh : ∀ i lsn data page, m.calls i = .fetched lsn data page →
    readPage m.wal.storage (segmentPage m.wal.segmentSize.toNat lsn) = .ok page
  exclusive : ∀ i j lsn data page lsn' data' page', i ≠ j → m.calls i = .fetched lsn data page →
    m.calls j = .fetched lsn' data' page' →
    segmentPage m.wal.segmentSize.toNat lsn ≠ segmentPage m.wal.segmentSize.toNat lsn'
  logged : ∀ i lsn data, m.calls i = .returned lsn data →
    Logged m.wal.storage m.wal.segmentSize.toNat lsn data

theorem intact_new (segmentSize : UInt32) : Intact (Machine.new segmentSize) := by
  refine ⟨?_, ?_, ?_, ?_, ?_⟩
  · intro i lsn data h
    cases h
  · intro i j lsn data lsn' data' _ h
    cases h
  · intro i lsn data page h
    cases h
  · intro i j lsn data page lsn' data' page' _ h
    cases h
  · intro i lsn data h
    cases h

variable [Bincode] {m m' : Machine} {call : Nat}

theorem reserve_cases {record : WALRecord} (h : step m (.reserve call record) = some m') :
    ∃ data, m.calls call = .idle ∧ serializeRecord record = .ok data ∧
      m' =
        { wal :=
            { m.wal with
              currentLsn :=
                placeAt m.wal.segmentSize.toNat m.wal.currentLsn data.length + data.length }
          calls := Function.update m.calls call (.reserved
            (placeAt m.wal.segmentSize.toNat m.wal.currentLsn data.length) data) } := by
  unfold step at h
  simp only at h
  split at h
  · rename_i data hidle hdata
    simp only [Option.bind_eq_bind] at h
    split at h
    · cases h
    · obtain ⟨current, hcurrent, h⟩ := Option.bind_eq_some_iff.mp h
      obtain ⟨lsn, hlsn, h⟩ := Option.bind_eq_some_iff.mp h
      cases h
      obtain rfl := recordStart_eq_some hcurrent
      unfold checkedAdd at hlsn
      split at hlsn
      · cases hlsn
        exact ⟨data, hidle, hdata, rfl⟩
      · cases hlsn
  · cases h

theorem readSegment_cases (h : step m (.readSegment call) = some m') :
    ∃ lsn data page, m.calls call = .reserved lsn data ∧
      readPage m.wal.storage (segmentPage m.wal.segmentSize.toNat lsn) = .ok page ∧
      m' = { m with calls := Function.update m.calls call (.fetched lsn data page) } := by
  unfold step at h
  simp only at h
  split at h
  · rename_i lsn data hreserved
    split at h
    · rename_i page hread
      cases h
      exact ⟨lsn, data, page, hreserved, hread, rfl⟩
    · cases h
  · cases h

theorem writeSegment_cases (h : step m (.writeSegment call) = some m') :
    ∃ lsn data page page', m.calls call = .fetched lsn data page ∧
      copyFromSlice (growTo m.wal.segmentSize.toNat page) (lsn % m.wal.segmentSize.toNat) data =
        some page' ∧
      m' =
        { wal :=
            { m.wal with
              storage := (writePage m.wal.storage
                (segmentPage m.wal.segmentSize.toNat lsn) page').2 }
          calls := Function.update m.calls call (.returned lsn data) } := by
  unfold step at h
  simp only at h
  split at h
  · rename_i lsn data page hfetched
    obtain ⟨page', hcopy, h⟩ := Option.bind_eq_some_iff.mp h
    cases h
    exact ⟨lsn, data, page, page', hfetched, hcopy, rfl⟩
  · cases h

omit [Bincode] in
theorem range_update {calls : Nat → AppendCall} {new : AppendCall} {i : Nat}
    (hnew : new.range = (calls call).range) :
    (Function.update calls call new i).range = (calls i).range := by
  by_cases hi : i = call
  · rw [hi, Function.update_self, hnew]
  · rw [Function.update_of_ne hi]

omit [Bincode] in
/-- A call in a state that the changed one is not in is another one. -/
theorem update_eq {calls : Nat → AppendCall} {new state : AppendCall} {i : Nat}
    (h : Function.update calls call new i = state) (hne : new ≠ state) :
    i ≠ call ∧ calls i = state := by
  by_cases hi : i = call
  · rw [hi, Function.update_self] at h
    exact absurd h hne
  · rw [Function.update_of_ne hi] at h
    exact ⟨hi, h⟩

theorem intact_reserve {record : WALRecord} (h : Intact m)
    (hguard : NoOverlap m (.reserve call record))
    (hstep : MachineStep m (.reserve call record) m') : Intact m' := by
  obtain ⟨data, hidle, hdata, rfl⟩ := reserve_cases hstep
  have hstart := le_placeAt m.wal.segmentSize.toNat m.wal.currentLsn data.length
  have hbound := hguard data hdata
  set lsn := placeAt m.wal.segmentSize.toNat m.wal.currentLsn data.length
  have hcases : ∀ i lsn' data', (Function.update m.calls call (.reserved lsn data) i).range =
      some (lsn', data') → i = call ∧ lsn' = lsn ∧ data' = data ∨
        i ≠ call ∧ (m.calls i).range = some (lsn', data') := by
    intro i lsn' data' hi
    by_cases hcall : i = call
    · rw [hcall, Function.update_self] at hi
      cases hi
      exact Or.inl ⟨hcall, rfl, rfl⟩
    · rw [Function.update_of_ne hcall] at hi
      exact Or.inr ⟨hcall, hi⟩
  refine ⟨?_, ?_, ?_, ?_, ?_⟩
  · intro i lsn' data' hi
    rcases hcases i lsn' data' hi with ⟨-, rfl, rfl⟩ | ⟨-, hold⟩
    · exact ⟨Nat.le_refl _, hbound⟩
    · obtain ⟨hle, hlt⟩ := h.below i lsn' data' hold
      refine ⟨?_, hlt⟩
      change _ ≤ lsn + data.length
      omega
  · intro i j lsn₁ data₁ lsn₂ data₂ hij hi hj
    rcases hcases i lsn₁ data₁ hi with ⟨rfl, rfl, rfl⟩ | ⟨hic, hold⟩
    · rcases hcases j lsn₂ data₂ hj with ⟨rfl, -⟩ | ⟨-, hold⟩
      · exact absurd rfl hij
      · exact Or.inr (Nat.le_trans (h.below j lsn₂ data₂ hold).1 hstart)
    · rcases hcases j lsn₂ data₂ hj with ⟨rfl, rfl, rfl⟩ | ⟨-, hold'⟩
      · exact Or.inl (Nat.le_trans (h.below i lsn₁ data₁ hold).1 hstart)
      · exact h.apart i j lsn₁ data₁ lsn₂ data₂ hij hold hold'
  · intro i lsn' data' page hi
    exact h.fresh i lsn' data' page (update_eq hi (by simp)).2
  · intro i j lsn₁ data₁ page₁ lsn₂ data₂ page₂ hij hi hj
    exact h.exclusive i j lsn₁ data₁ page₁ lsn₂ data₂ page₂ hij (update_eq hi (by simp)).2
      (update_eq hj (by simp)).2
  · intro i lsn' data' hi
    exact h.logged i lsn' data' (update_eq hi (by simp)).2

theorem intact_readSegment (h : Intact m) (hguard : NoOverlap m (.readSegment call))
    (hstep : MachineStep m (.readSegment call) m') : Intact m' := by
  obtain ⟨lsn, data, page, hreserved, hread, rfl⟩ := readSegment_cases hstep
  have hothers := hguard lsn data hreserved
  have hrange : (AppendCall.fetched lsn data page).range = (m.calls call).range := by
    rw [hreserved]
    rfl
  refine ⟨?_, ?_, ?_, ?_, ?_⟩
  · intro i lsn' data' hi
    rw [range_update hrange] at hi
    exact h.below i lsn' data' hi
  · intro i j lsn₁ data₁ lsn₂ data₂ hij hi hj
    rw [range_update hrange] at hi hj
    exact h.apart i j lsn₁ data₁ lsn₂ data₂ hij hi hj
  · intro i lsn' data' page' hi
    by_cases hcall : i = call
    · rw [hcall] at hi
      simp only [Function.update_self] at hi
      cases hi
      exact hread
    · simp only [Function.update_of_ne hcall] at hi
      exact h.fresh i lsn' data' page' hi
  · intro i j lsn₁ data₁ page₁ lsn₂ data₂ page₂ hij hi hj
    by_cases hic : i = call
    · have hjc : j ≠ call := fun hj' => hij (hic.trans hj'.symm)
      rw [hic] at hi
      simp only [Function.update_self] at hi
      simp only [Function.update_of_ne hjc] at hj
      cases hi
      exact (hothers j lsn₂ data₂ page₂ hj).symm
    · simp only [Function.update_of_ne hic] at hi
      by_cases hjc : j = call
      · rw [hjc] at hj
        simp only [Function.update_self] at hj
        cases hj
        exact hothers i lsn₁ data₁ page₁ hi
      · simp only [Function.update_of_ne hjc] at hj
        exact h.exclusive i j lsn₁ data₁ page₁ lsn₂ data₂ page₂ hij hi hj
  · intro i lsn' data' hi
    exact h.logged i lsn' data' (update_eq hi (by simp)).2

theorem intact_writeSegment (h : Intact m) (hstep : MachineStep m (.writeSegment call) m') :
    Intact m' := by
  obtain ⟨lsn, data, page, page', hfetched, hcopy, rfl⟩ := writeSegment_cases hstep
  have hread := h.fresh call lsn data page hfetched
  have hcall : (m.calls call).range = some (lsn, data) := by rw [hfetched]; rfl
  have hrange : (AppendCall.returned lsn data).range = (m.calls call).range := hcall.symm
  refine ⟨?_, ?_, ?_, ?_, ?_⟩
  · intro i lsn' data' hi
    rw [range_update hrange] at hi
    exact h.below i lsn' data' hi
  · intro i j lsn₁ data₁ lsn₂ data₂ hij hi hj
    rw [range_update hrange] at hi hj
    exact h.apart i j lsn₁ data₁ lsn₂ data₂ hij hi hj
  · -- no other call has read the page that was written
    intro i lsn' data' page'' hi
    obtain ⟨hne, hold⟩ := update_eq hi (by simp)
    have hpages := h.exclusive i call lsn' data' page'' lsn data page hne hold hfetched
    exact (LawfulStorage.read_write_of_ne _ _ _ _ hpages).trans (h.fresh i lsn' data' page'' hold)
  · intro i j lsn₁ data₁ page₁ lsn₂ data₂ page₂ hij hi hj
    exact h.exclusive i j lsn₁ data₁ page₁ lsn₂ data₂ page₂ hij (update_eq hi (by simp)).2
      (update_eq hj (by simp)).2
  · intro i lsn' data' hi
    by_cases hcall' : i = call
    · rw [hcall'] at hi
      simp only [Function.update_self] at hi
      cases hi
      exact logged_write_self hcopy
    · simp only [Function.update_of_ne hcall'] at hi
      have hi' : (m.calls i).range = some (lsn', data') := by rw [hi]; rfl
      exact logged_write hread hcopy (h.below call lsn data hcall).2 (h.below i lsn' data' hi').2
        (h.apart call i lsn data lsn' data' (Ne.symm hcall') hcall hi') (h.logged i lsn' data' hi)

theorem intact_step {action : Action} (h : Intact m) (hguard : NoOverlap m action)
    (hstep : MachineStep m action m') : Intact m' := by
  cases action with
  | reserve call record => exact intact_reserve h hguard hstep
  | readSegment call => exact intact_readSegment h hguard hstep
  | writeSegment call => exact intact_writeSegment h hstep

end Overlap

section Forward

variable [Bincode] {m : Machine} {call lsn : Nat} {data page page' : Bytes}

theorem reserve_ok {record : WALRecord} (hidle : m.calls call = .idle)
    (hdata : serializeRecord record = .ok data) (hpos : 0 < m.wal.segmentSize.toNat)
    (hstart : recordStart m.wal.currentLsn data.length m.wal.segmentSize.toNat = some lsn)
    (hbound : lsn + data.length < 2 ^ 64) :
    MachineStep m (.reserve call record)
      { wal := { m.wal with currentLsn := lsn + data.length }
        calls := Function.update m.calls call (.reserved lsn data) } := by
  have hadd : checkedAdd lsn data.length = some (lsn + data.length) := if_pos hbound
  simp only [MachineStep, step, hidle, hdata, if_neg (Nat.pos_iff_ne_zero.mp hpos), hstart, hadd,
    Option.bind_eq_bind, Option.bind_some]
  rfl

theorem readSegment_ok (hreserved : m.calls call = .reserved lsn data)
    (hread : readPage m.wal.storage (segmentPage m.wal.segmentSize.toNat lsn) = .ok page) :
    MachineStep m (.readSegment call)
      { m with calls := Function.update m.calls call (.fetched lsn data page) } := by
  simp only [MachineStep, step, hreserved, hread]

theorem writeSegment_ok (hfetched : m.calls call = .fetched lsn data page)
    (hcopy : copyFromSlice (growTo m.wal.segmentSize.toNat page)
      (lsn % m.wal.segmentSize.toNat) data = some page') :
    MachineStep m (.writeSegment call)
      { wal :=
          { m.wal with
            storage := (writePage m.wal.storage
              (segmentPage m.wal.segmentSize.toNat lsn) page').2 }
        calls := Function.update m.calls call (.returned lsn data) } := by
  simp only [MachineStep, step, hfetched, hcopy, Option.bind_eq_bind, Option.bind_some]
  rfl

/-- Three steps that no other call interrupts are `append`. -/
theorem append_eq_steps {record : WALRecord} {wal wal' : WAL} {calls : Nat → AppendCall}
    (hidle : calls call = .idle) (h : append record wal = .ok lsn wal') :
    ∃ data trace, serializeRecord record = .ok data ∧
      Run MachineStep ⟨wal, calls⟩ trace
        ⟨wal', Function.update calls call (.returned lsn data)⟩ ∧
      trace.map Transition.label =
        [.reserve call record, .readSegment call, .writeSegment call] := by
  obtain ⟨data, page, page', hdata, hpos, hstart, hbound, hread, hcopy, rfl⟩ := append_cases h
  have hreserve := reserve_ok (m := ⟨wal, calls⟩) hidle hdata hpos hstart hbound
  set reserved : Machine := ⟨{ wal with currentLsn := lsn + data.length },
    Function.update calls call (.reserved lsn data)⟩
  have hreadStep := readSegment_ok (m := reserved) (Function.update_self _ _ _) hread
  set fetched : Machine := { reserved with
    calls := Function.update reserved.calls call (.fetched lsn data page) }
  have hwriteStep := writeSegment_ok (m := fetched) (Function.update_self _ _ _) hcopy
  have hcalls : Function.update fetched.calls call (.returned lsn data) =
      Function.update calls call (.returned lsn data) := by
    simp only [fetched, reserved, Function.update_idem]
  rw [hcalls] at hwriteStep
  exact ⟨data, _, hdata,
    Run.cons hreserve (Run.cons hreadStep (Run.cons hwriteStep (Run.nil _))), rfl⟩

end Forward

section TwoCalls

/-- The states of calls 0 and 1; there are no others. -/
def twoCalls (first second : AppendCall) : Nat → AppendCall
  | 0 => first
  | 1 => second
  | _ => .idle

theorem update_first (first second new : AppendCall) :
    Function.update (twoCalls first second) 0 new = twoCalls new second := by
  funext i
  match i with
  | 0 => rfl
  | 1 => rfl
  | i + 2 => rfl

theorem update_second (first second new : AppendCall) :
    Function.update (twoCalls first second) 1 new = twoCalls first new := by
  funext i
  match i with
  | 0 => rfl
  | 1 => rfl
  | i + 2 => rfl

theorem machine_new : Machine.new 8192 = ⟨WAL.new 8192, twoCalls .idle .idle⟩ := by
  unfold Machine.new
  congr 1
  funext i
  match i with
  | 0 => rfl
  | 1 => rfl
  | i + 2 => rfl

/-- The log of segments of 8192 bytes. -/
def logAt (lsn : Nat) (storage : EphemeralStorage) : WAL :=
  { WAL.new 8192 with currentLsn := lsn, storage := storage }

variable {storage : EphemeralStorage} {stop lsn : Nat} {data page page' : Bytes}
  {first second : AppendCall}

theorem read_first (hread : readPage storage (segmentPage 8192 lsn) = .ok page) :
    MachineStep ⟨logAt stop storage, twoCalls (.reserved lsn data) second⟩ (.readSegment 0)
      ⟨logAt stop storage, twoCalls (.fetched lsn data page) second⟩ := by
  have hreserved : (⟨logAt stop storage, twoCalls (.reserved lsn data) second⟩ : Machine).calls 0 =
      .reserved lsn data := rfl
  have hstep := readSegment_ok hreserved hread
  rw [update_first] at hstep
  exact hstep

theorem read_second (hread : readPage storage (segmentPage 8192 lsn) = .ok page) :
    MachineStep ⟨logAt stop storage, twoCalls first (.reserved lsn data)⟩ (.readSegment 1)
      ⟨logAt stop storage, twoCalls first (.fetched lsn data page)⟩ := by
  have hreserved : (⟨logAt stop storage, twoCalls first (.reserved lsn data)⟩ : Machine).calls 1 =
      .reserved lsn data := rfl
  have hstep := readSegment_ok hreserved hread
  rw [update_second] at hstep
  exact hstep

theorem write_first
    (hcopy : copyFromSlice (growTo 8192 page) (lsn % 8192) data = some page') :
    MachineStep ⟨logAt stop storage, twoCalls (.fetched lsn data page) second⟩ (.writeSegment 0)
      ⟨logAt stop (writePage storage (segmentPage 8192 lsn) page').2,
        twoCalls (.returned lsn data) second⟩ := by
  have hfetched : (⟨logAt stop storage, twoCalls (.fetched lsn data page) second⟩ :
      Machine).calls 0 = .fetched lsn data page := rfl
  have hstep := writeSegment_ok hfetched hcopy
  rw [update_first] at hstep
  exact hstep

theorem write_second
    (hcopy : copyFromSlice (growTo 8192 page) (lsn % 8192) data = some page') :
    MachineStep ⟨logAt stop storage, twoCalls first (.fetched lsn data page)⟩ (.writeSegment 1)
      ⟨logAt stop (writePage storage (segmentPage 8192 lsn) page').2,
        twoCalls first (.returned lsn data)⟩ := by
  have hfetched : (⟨logAt stop storage, twoCalls first (.fetched lsn data page)⟩ :
      Machine).calls 1 = .fetched lsn data page := rfl
  have hstep := writeSegment_ok hfetched hcopy
  rw [update_second] at hstep
  exact hstep

theorem reserve_first :
    MachineStep ⟨logAt 0 storage, twoCalls .idle second⟩ (.reserve 0 (.begin 1))
      ⟨logAt 12 storage, twoCalls (.reserved 0 (encodeRecord (.begin 1))) second⟩ := by
  have hidle : (⟨logAt 0 storage, twoCalls .idle second⟩ : Machine).calls 0 = .idle := rfl
  have hdata : serializeRecord (.begin 1) = .ok (encodeRecord (.begin 1)) := rfl
  have hpos : 0 < (8192 : UInt32).toNat := by decide
  have hbound : 0 + (encodeRecord (.begin 1)).length < 2 ^ 64 := by decide
  have hstep := reserve_ok hidle hdata hpos rfl hbound
  rw [update_first] at hstep
  exact hstep

theorem reserve_second :
    MachineStep ⟨logAt 12 storage, twoCalls first .idle⟩ (.reserve 1 (.commit 1))
      ⟨logAt 24 storage, twoCalls first (.reserved 12 (encodeRecord (.commit 1)))⟩ := by
  have hidle : (⟨logAt 12 storage, twoCalls first .idle⟩ : Machine).calls 1 = .idle := rfl
  have hdata : serializeRecord (.commit 1) = .ok (encodeRecord (.commit 1)) := rfl
  have hpos : 0 < (8192 : UInt32).toNat := by decide
  have hbound : 12 + (encodeRecord (.commit 1)).length < 2 ^ 64 := by decide
  have hstep := reserve_ok hidle hdata hpos rfl hbound
  rw [update_second] at hstep
  exact hstep

theorem copy_zeroPage (data : Bytes) (offset : Nat) (h : offset + data.length ≤ 8192) :
    ∃ page, copyFromSlice (growTo 8192 zeroPage) offset data = some page := by
  refine ⟨_, if_pos ?_⟩
  rw [growTo_length, zeroPage_length]
  exact h

theorem read_new (p : PageId) : readPage EphemeralStorage.new p = .ok zeroPage :=
  EphemeralStorage.readPage_eq EphemeralStorage.new p

end TwoCalls

end PostgressRs.Wal.ConcurrentAppend
