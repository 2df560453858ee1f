import PostgressRs.Wal.WriteAheadLog

/-!
Records that are in the log stay there, byte for byte, while further records are
appended.
-/

namespace PostgressRs.Wal.LogIntegrity

open PostgressRs.Lib.ByteBuffer
open PostgressRs.Lib.Procedure
open PostgressRs.Storage.PageStore
open PostgressRs.Types
open PostgressRs.Wal.LogRecord
open PostgressRs.Wal.WriteAheadLog

section Segments

/-- The page of the segment that an LSN lies in. -/
def segmentPage (segmentSize lsn : Nat) : PageId := ⟨UInt32.ofNat (1 + lsn / segmentSize)⟩

/-- The record's bytes are in the store at its LSN. -/
def Logged (storage : EphemeralStorage) (segmentSize lsn : Nat) (data : Bytes) : Prop :=
  ∃ page, readPage storage (segmentPage segmentSize lsn) = .ok page ∧
    slice page (lsn % segmentSize) (lsn % segmentSize + data.length) = some data

/-- The byte ranges of two records do not meet. -/
def Apart (lsn : Nat) (data : Bytes) (lsn' : Nat) (data' : Bytes) : Prop :=
  lsn + data.length ≤ lsn' ∨ lsn' + data'.length ≤ lsn

variable {storage : EphemeralStorage} {segmentSize lsn lsn' : Nat} {data data' page page' : Bytes}

theorem segmentPage_inj (hlsn : lsn < 2 ^ 32 * segmentSize) (hlsn' : lsn' < 2 ^ 32 * segmentSize)
    (h : segmentPage segmentSize lsn = segmentPage segmentSize lsn') :
    lsn / segmentSize = lsn' / segmentSize := by
  have hdiv : lsn / segmentSize < 2 ^ 32 := Nat.div_lt_of_lt_mul (by rwa [Nat.mul_comm])
  have hdiv' : lsn' / segmentSize < 2 ^ 32 := Nat.div_lt_of_lt_mul (by rwa [Nat.mul_comm])
  have hval : UInt32.ofNat (1 + lsn / segmentSize) = UInt32.ofNat (1 + lsn' / segmentSize) :=
    congrArg PageId.val h
  have hmod := congrArg UInt32.toNat hval
  simp only [UInt32.toNat_ofNat'] at hmod
  generalize lsn / segmentSize = a at *
  generalize lsn' / segmentSize = b at *
  omega

theorem growTo_eq_append (len : Nat) (page : Bytes) :
    growTo len page = page ++ List.replicate (len - page.length) 0 := by
  unfold growTo
  split
  · rfl
  · rw [Nat.sub_eq_zero_of_le (by omega), List.replicate_zero, List.append_nil]

/-- Writing a record puts it into the store. -/
theorem logged_write_self
    (hcopy : copyFromSlice (growTo segmentSize page) (lsn % segmentSize) data = some page') :
    Logged (writePage storage (segmentPage segmentSize lsn) page').2 segmentSize lsn data :=
  ⟨page', LawfulStorage.read_write_self _ _ _, slice_copyFromSlice_self hcopy⟩

/-- Writing a record into its segment's current page keeps the other records. -/
theorem logged_write (hread : readPage storage (segmentPage segmentSize lsn) = .ok page)
    (hcopy : copyFromSlice (growTo segmentSize page) (lsn % segmentSize) data = some page')
    (hlsn : lsn < 2 ^ 32 * segmentSize) (hlsn' : lsn' < 2 ^ 32 * segmentSize)
    (hapart : Apart lsn data lsn' data') (h : Logged storage segmentSize lsn' data') :
    Logged (writePage storage (segmentPage segmentSize lsn) page').2 segmentSize lsn' data' := by
  obtain ⟨old, hold, hslice⟩ := h
  by_cases hpage : segmentPage segmentSize lsn' = segmentPage segmentSize lsn
  · have hsegment := segmentPage_inj hlsn' hlsn hpage
    rw [hpage, hread] at hold
    cases hold
    refine ⟨page', ?_, ?_⟩
    · rw [hpage]
      exact LawfulStorage.read_write_self _ _ _
    · have hsplit := Nat.div_add_mod lsn segmentSize
      have hsplit' := Nat.div_add_mod lsn' segmentSize
      rw [hsegment] at hsplit'
      unfold Apart at hapart
      rw [slice_copyFromSlice_of_disjoint hcopy (by omega), growTo_eq_append]
      exact slice_append_left hslice _
  · exact ⟨old, (LawfulStorage.read_write_of_ne _ _ _ _ hpage).trans hold, hslice⟩

end Segments

section Placement

/-- Where a record of `size` bytes goes. -/
def placeAt (segmentSize current size : Nat) : Nat :=
  if segmentSize < current % segmentSize + size then
    current + (segmentSize - current % segmentSize)
  else current

/-- Where the log ends once the records are appended. -/
def logEnd (segmentSize : Nat) : Nat → List Bytes → Nat
  | current, [] => current
  | current, data :: datas =>
      logEnd segmentSize (placeAt segmentSize current data.length + data.length) datas

variable {segmentSize current size : Nat}

theorem le_placeAt (segmentSize current size : Nat) :
    current ≤ placeAt segmentSize current size := by
  unfold placeAt
  split
  · exact Nat.le_add_right _ _
  · exact Nat.le_refl _

theorem placeAt_inside (hpos : 0 < segmentSize) (hsize : size ≤ segmentSize) :
    placeAt segmentSize current size % segmentSize + size ≤ segmentSize := by
  unfold placeAt
  split
  · have hlt := Nat.mod_lt current hpos
    have hsplit := Nat.div_add_mod current segmentSize
    have hboundary : current + (segmentSize - current % segmentSize) =
        segmentSize * (current / segmentSize + 1) := by
      rw [Nat.mul_add, Nat.mul_one]
      omega
    rw [hboundary, Nat.mul_mod_right]
    omega
  · omega

theorem recordStart_eq_placeAt (h : placeAt segmentSize current size < 2 ^ 64) :
    recordStart current size segmentSize = some (placeAt segmentSize current size) := by
  unfold recordStart placeAt at *
  split
  · rename_i hstraddles
    rw [if_pos hstraddles] at h
    rw [checkedAdd, if_pos h]
  · rfl

theorem le_logEnd (segmentSize current : Nat) (datas : List Bytes) :
    current ≤ logEnd segmentSize current datas := by
  induction datas generalizing current with
  | nil => exact Nat.le_refl _
  | cons data datas ih =>
      calc
        current ≤ placeAt segmentSize current data.length := le_placeAt _ _ _
        _ ≤ placeAt segmentSize current data.length + data.length := Nat.le_add_right _ _
        _ ≤ _ := ih _

end Placement

section Appends

variable [Bincode]

/-- Sequential calls of `append`, with the LSNs they return. -/
def appendAll : List WALRecord → Proc WAL (List Nat)
  | [] => pure []
  | record :: records => do
      let lsn ← append record
      let lsns ← appendAll records
      pure (lsn :: lsns)

/-- The log after a record was written at `lsn`. -/
def logged (wal : WAL) (lsn : Nat) (data page : Bytes) : WAL :=
  { wal with
    currentLsn := lsn + data.length
    storage := (writePage wal.storage (segmentPage wal.segmentSize.toNat lsn) page).2 }

omit [Bincode] in
theorem recordStart_eq_some {current size segmentSize lsn : Nat}
    (h : recordStart current size segmentSize = some lsn) :
    lsn = placeAt segmentSize current size := by
  unfold recordStart checkedAdd at h
  unfold placeAt
  split at h
  · rename_i hstraddles
    rw [if_pos hstraddles]
    split at h
    · cases h
      rfl
    · cases h
  · rename_i hinside
    rw [if_neg hinside]
    cases h
    rfl

/-- What a call of `append` that returns an LSN has done. -/
theorem append_cases {wal wal' : WAL} {record : WALRecord} {lsn : Nat}
    (h : append record wal = .ok lsn wal') :
    ∃ data page page', serializeRecord record = .ok data ∧ 0 < wal.segmentSize.toNat ∧
      recordStart wal.currentLsn data.length wal.segmentSize.toNat = some lsn ∧
      lsn + data.length < 2 ^ 64 ∧
      readPage wal.storage (segmentPage wal.segmentSize.toNat lsn) = .ok page ∧
      copyFromSlice (growTo wal.segmentSize.toNat page) (lsn % wal.segmentSize.toNat) data =
        some page' ∧
      wal' = logged wal lsn data page' := by
  obtain ⟨data, wal₁, hser, h⟩ := bind_eq_ok.mp h
  obtain ⟨hdata, rfl⟩ := ofExcept_eq_ok.mp hser
  rw [bind_ok (read_apply _ _)] at h
  simp only [id_eq] at h
  split at h
  · cases h
  · rename_i hpos
    obtain ⟨current, wal₁, hplace, h⟩ := bind_eq_ok.mp h
    obtain ⟨hstart, rfl⟩ := orPanic_eq_ok.mp hplace
    obtain ⟨next, wal₁, hadvance, h⟩ := bind_eq_ok.mp h
    obtain ⟨hnext, rfl⟩ := orPanic_eq_ok.mp hadvance
    rw [bind_ok (modify_apply _ _)] at h
    obtain ⟨_, wal₁, hwrite, h⟩ := bind_eq_ok.mp h
    cases h
    unfold checkedAdd at hnext
    split at hnext
    · rename_i hbound
      cases hnext
      unfold writeRecord at hwrite
      rw [bind_ok (read_apply _ _)] at hwrite
      simp only [id_eq] at hwrite
      obtain ⟨segment, wal₂, hpage, hwrite⟩ := bind_eq_ok.mp hwrite
      obtain ⟨hsegment, rfl⟩ := orPanic_eq_ok.mp hpage
      obtain ⟨page, wal₂, hfetch, hwrite⟩ := bind_eq_ok.mp hwrite
      obtain ⟨hread, rfl⟩ := ofExcept_eq_ok.mp hfetch
      obtain ⟨page', wal₂, hput, hwrite⟩ := bind_eq_ok.mp hwrite
      obtain ⟨hcopy, rfl⟩ := orPanic_eq_ok.mp hput
      unfold checkedAdd at hsegment
      split at hsegment
      · cases hsegment
        cases hwrite
        exact ⟨data, page, page', hdata, Nat.pos_of_ne_zero hpos, hstart, hbound, hread, hcopy,
          rfl⟩
      · cases hsegment
    · cases hnext

theorem appendAll_currentLsn {records : List WALRecord} {datas : List Bytes} {wal wal' : WAL}
    {lsns : List Nat}
    (hdatas : List.Forall₂ (fun record data => serializeRecord record = .ok data) records datas)
    (happend : appendAll records wal = .ok lsns wal') :
    wal'.currentLsn = logEnd wal.segmentSize.toNat wal.currentLsn datas := by
  induction hdatas generalizing wal lsns with
  | nil =>
      cases happend
      rfl
  | @cons record data records datas hdata _ ih =>
      obtain ⟨lsn, wal₁, hfirst, happend⟩ := bind_eq_ok.mp happend
      obtain ⟨lsns', wal₂, hrest, happend⟩ := bind_eq_ok.mp happend
      cases happend
      obtain ⟨data', page, page', hdata', _, hstart, _, _, _, rfl⟩ := append_cases hfirst
      rw [hdata] at hdata'
      cases hdata'
      rw [ih hrest, logEnd, ← recordStart_eq_some hstart]
      rfl

theorem append_eq {wal : WAL} {record : WALRecord} {data : Bytes}
    (hpos : 0 < wal.segmentSize.toNat) (hdata : serializeRecord record = .ok data)
    (hsize : data.length ≤ wal.segmentSize.toNat) {lsn : Nat}
    (hlsn : lsn = placeAt wal.segmentSize.toNat wal.currentLsn data.length)
    (hend : lsn + data.length ≤ 2 ^ 32 * wal.segmentSize.toNat) :
    ∃ page page', append record wal = .ok lsn (logged wal lsn data page') ∧
      readPage wal.storage (segmentPage wal.segmentSize.toNat lsn) = .ok page ∧
      copyFromSlice (growTo wal.segmentSize.toNat page) (lsn % wal.segmentSize.toNat) data =
        some page' := by
  have hinside : lsn % wal.segmentSize.toNat + data.length ≤ wal.segmentSize.toNat := by
    rw [hlsn]
    exact placeAt_inside hpos hsize
  have hbound : lsn + data.length < 2 ^ 64 := by
    have hlt := wal.segmentSize.toNat_lt
    omega
  have hstart : recordStart wal.currentLsn data.length wal.segmentSize.toNat = some lsn := by
    rw [hlsn]
    exact recordStart_eq_placeAt (by omega)
  have hadd : checkedAdd lsn data.length = some (lsn + data.length) := if_pos hbound
  have hsegment : checkedAdd 1 (lsn / wal.segmentSize.toNat) =
      some (1 + lsn / wal.segmentSize.toNat) := by
    have hle : lsn / wal.segmentSize.toNat ≤ 2 ^ 32 :=
      Nat.div_le_of_le_mul (by rw [Nat.mul_comm]; omega)
    exact if_pos (by omega)
  obtain ⟨page, hread⟩ : ∃ page, readPage wal.storage
      (segmentPage wal.segmentSize.toNat lsn) = .ok page :=
    ⟨_, EphemeralStorage.readPage_eq wal.storage _⟩
  obtain ⟨page', hcopy⟩ : ∃ page', copyFromSlice (growTo wal.segmentSize.toNat page)
      (lsn % wal.segmentSize.toNat) data = some page' := by
    refine ⟨_, if_pos ?_⟩
    rw [growTo_length]
    omega
  refine ⟨page, page', ?_, hread, hcopy⟩
  unfold segmentPage at hread
  simp only [append, writeRecord, bind_apply, hdata, ofExcept_ok, read_apply, id_eq,
    if_neg (Nat.pos_iff_ne_zero.mp hpos), hstart, orPanic_some, hadd, modify_apply, hsegment,
    hread, hcopy, EphemeralStorage.writePage_eq, pure_apply]
  rfl

/-- Appends put every record into the store and keep the records that are there. -/
theorem appendAll_logged [BincodeRecords] [LawfulBincodeRecords] {records : List WALRecord}
    {datas : List Bytes} {wal : WAL} {placed : List (Nat × Bytes)}
    (hpos : 0 < wal.segmentSize.toNat)
    (hdatas : List.Forall₂ (fun record data => serializeRecord record = .ok data) records datas)
    (hsize : ∀ data ∈ datas, data.length ≤ wal.segmentSize.toNat)
    (hend : logEnd wal.segmentSize.toNat wal.currentLsn datas ≤ 2 ^ 32 * wal.segmentSize.toNat)
    (hplaced : ∀ entry ∈ placed, entry.1 + entry.2.length ≤ wal.currentLsn ∧ entry.2 ≠ [] ∧
      Logged wal.storage wal.segmentSize.toNat entry.1 entry.2) :
    ∃ lsns wal', appendAll records wal = .ok lsns wal' ∧ lsns.length = datas.length ∧
      (lsns.zip datas).Pairwise (fun a b => a.1 + a.2.length ≤ b.1) ∧
      (∀ entry ∈ lsns.zip datas, wal.currentLsn ≤ entry.1 ∧
        entry.1 % wal.segmentSize.toNat + entry.2.length ≤ wal.segmentSize.toNat) ∧
      ∀ entry ∈ placed ++ lsns.zip datas,
        Logged wal'.storage wal.segmentSize.toNat entry.1 entry.2 := by
  induction hdatas generalizing wal placed with
  | nil =>
      refine ⟨[], wal, rfl, rfl, List.Pairwise.nil, by simp, ?_⟩
      intro entry hentry
      rw [List.zip_nil_left, List.append_nil] at hentry
      exact (hplaced entry hentry).2.2
  | @cons record data records datas hdata _ ih =>
      have hdataSize := hsize data List.mem_cons_self
      set lsn := placeAt wal.segmentSize.toNat wal.currentLsn data.length with hlsn
      have hfirst : lsn + data.length ≤ 2 ^ 32 * wal.segmentSize.toNat :=
        Nat.le_trans (le_logEnd _ _ _) hend
      have hnonempty := List.length_pos_iff.mpr (serializeRecord_ne_nil hdata)
      obtain ⟨page, page', happend, hread, hcopy⟩ := append_eq hpos hdata hdataSize hlsn hfirst
      have hcurrent : wal.currentLsn ≤ lsn := le_placeAt _ _ _
      have hplaced' : ∀ entry ∈ placed ++ [(lsn, data)],
          entry.1 + entry.2.length ≤ (logged wal lsn data page').currentLsn ∧ entry.2 ≠ [] ∧
            Logged (logged wal lsn data page').storage wal.segmentSize.toNat entry.1 entry.2 := by
        intro entry hentry
        rcases List.mem_append.mp hentry with hentry | hentry
        · obtain ⟨hbelow, hne, hlogged⟩ := hplaced entry hentry
          have hentryPos := List.length_pos_iff.mpr hne
          refine ⟨?_, hne, logged_write hread hcopy (by omega) (by omega)
            (Or.inr (by omega)) hlogged⟩
          change _ ≤ lsn + data.length
          omega
        · rw [List.mem_singleton.mp hentry]
          exact ⟨Nat.le_refl _, serializeRecord_ne_nil hdata, logged_write_self hcopy⟩
      obtain ⟨lsns, wal', hrest, hlen, hpairwise, hinside, hlogged⟩ :=
        @ih (logged wal lsn data page') (placed ++ [(lsn, data)]) hpos
          (fun data' hmem => hsize data' (List.mem_cons_of_mem _ hmem)) hend hplaced'
      refine ⟨lsn :: lsns, wal', ?_, ?_, ?_, ?_, ?_⟩
      · rw [appendAll, bind_ok happend, bind_ok hrest]
        rfl
      · rw [List.length_cons, List.length_cons, hlen]
      · rw [List.zip_cons_cons]
        refine List.pairwise_cons.mpr ⟨?_, hpairwise⟩
        intro entry hentry
        exact (hinside entry hentry).1
      · intro entry hentry
        rw [List.zip_cons_cons] at hentry
        rcases List.mem_cons.mp hentry with rfl | hentry
        · exact ⟨hcurrent, placeAt_inside hpos hdataSize⟩
        · obtain ⟨hle, hin⟩ := hinside entry hentry
          refine ⟨Nat.le_trans hcurrent (Nat.le_trans (Nat.le_add_right _ _) hle), hin⟩
      · intro entry hentry
        apply hlogged entry
        rw [List.append_assoc]
        exact hentry

/-- Appends to a fresh log return increasing LSNs and leave every record in the
store, each in one segment and apart from the others. -/
theorem appends_keep_log [BincodeRecords] [LawfulBincodeRecords] {segmentSize : UInt32}
    (hpos : 0 < segmentSize.toNat) {records : List WALRecord} {datas : List Bytes}
    (hdatas : List.Forall₂ (fun record data => serializeRecord record = .ok data) records datas)
    (hsize : ∀ data ∈ datas, data.length ≤ segmentSize.toNat)
    (htotal : logEnd segmentSize.toNat 0 datas ≤ 2 ^ 32 * segmentSize.toNat) :
    ∃ lsns wal, appendAll records (WAL.new segmentSize) = .ok lsns wal ∧
      lsns.length = records.length ∧ lsns.Pairwise (· < ·) ∧
      (lsns.zip datas).Pairwise (fun a b => a.1 + a.2.length ≤ b.1) ∧
      ∀ entry ∈ lsns.zip datas,
        entry.1 % segmentSize.toNat + entry.2.length ≤ segmentSize.toNat ∧
          Logged wal.storage segmentSize.toNat entry.1 entry.2 := by
  obtain ⟨lsns, wal, happend, hlen, hpairwise, hinside, hlogged⟩ :=
    @appendAll_logged _ _ _ records datas (WAL.new segmentSize) [] hpos hdatas hsize htotal
      (by simp)
  have hnonempty : ∀ data ∈ datas, 0 < data.length := by
    intro data hdata
    obtain ⟨i, hi, rfl⟩ := List.getElem_of_mem hdata
    have hi' : i < records.length := by rw [hdatas.length_eq]; exact hi
    exact List.length_pos_iff.mpr (serializeRecord_ne_nil (hdatas.get hi' hi))
  have hfst : lsns = (lsns.zip datas).map Prod.fst :=
    (List.map_fst_zip (Nat.le_of_eq hlen)).symm
  refine ⟨lsns, wal, happend, hlen.trans hdatas.length_eq.symm, ?_, hpairwise, ?_⟩
  · rw [hfst, List.pairwise_map]
    refine hpairwise.imp_of_mem ?_
    rintro ⟨lsn, data⟩ ⟨lsn', data'⟩ hmem _ hle
    have hdata := hnonempty data (List.of_mem_zip hmem).2
    simp only at hle ⊢
    omega
  · intro entry hentry
    exact ⟨(hinside entry hentry).2, hlogged entry (List.mem_append_right _ hentry)⟩

end Appends

theorem appends_keep_log_two :
    ∃ lsns wal, appendAll [.begin 1, .commit 1] (WAL.new 8192) = .ok lsns wal ∧
      lsns.length = 2 ∧ lsns.Pairwise (· < ·) ∧
      ∀ entry ∈ lsns.zip [encodeRecord (.begin 1), encodeRecord (.commit 1)],
        Logged wal.storage 8192 entry.1 entry.2 := by
  have hdatas : List.Forall₂ (fun record data => serializeRecord record = .ok data)
      [.begin 1, .commit 1] [encodeRecord (.begin 1), encodeRecord (.commit 1)] :=
    List.Forall₂.cons rfl (List.Forall₂.cons rfl List.Forall₂.nil)
  have hpos : 0 < (8192 : UInt32).toNat := by decide
  obtain ⟨lsns, wal, happend, hlen, hincreasing, _, hlogged⟩ :=
    appends_keep_log hpos hdatas (by decide) (by decide)
  exact ⟨lsns, wal, happend, hlen, hincreasing, fun entry hentry => (hlogged entry hentry).2⟩

end PostgressRs.Wal.LogIntegrity
