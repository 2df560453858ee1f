import PostgressRs.Executor.VacuumEffects

/-!
When pruning a page takes the tuples that vacuum takes: `prune` reads the word
at byte 16 of an encoded tuple, where a tuple of few slots has its data or its
`xmin`, and vacuum decodes `xmax`.
-/

namespace PostgressRs.Executor.PruneAgreement

open PostgressRs.Executor.HeapAccess
open PostgressRs.Executor.VacuumEffects
open PostgressRs.Lib.ByteBuffer
open PostgressRs.Storage.PageContents
open PostgressRs.Storage.PageRoundTrip
open PostgressRs.Storage.SlottedPage
open PostgressRs.Types
open PostgressRs.Wal.LogRecord

section Marking

/-- Marks the normal slots dead whose tuples are taken. -/
def marked (takes : Bytes → Bool) : List LinePointer → List Bytes → List LinePointer × Nat
  | [], _ => ([], 0)
  | lp :: lps, tuples =>
      let (rest, count) := marked takes lps tuples.tail
      if lp.lpFlags = lpNormal ∧ tuples.head?.any takes = true then
        ({ lp with lpFlags := lpDead } :: rest, count + 1)
      else (lp :: rest, count)

/-- The word that `prune` takes for `xmax` is set and below the cutoff. -/
def wordExpired (cutoffXid : UInt32) (tupleData : Bytes) : Bool :=
  let xmax := UInt64.ofNat (fromLeBytes ((tupleData.drop 16).take 8))
  xmax ≠ 0 && decide (xmax.toUInt32 < cutoffXid)

variable {takes : Bytes → Bool} {lps : List LinePointer} {tuples : List Bytes}
  {cutoffXid : UInt32}

theorem normalTuples_marked :
    normalTuples (marked takes lps tuples).1 tuples =
      (normalTuples lps tuples).filter fun tuple => !takes tuple := by
  induction lps generalizing tuples with
  | nil => rfl
  | cons lp lps ih =>
      cases tuples with
      | nil =>
          simp only [marked, normalTuples, List.filter_nil]
          split
          · rfl
          · rfl
      | cons tuple tuples =>
          have htail := @ih tuples
          simp only [marked, List.head?_cons, List.tail_cons, Option.any_some]
          by_cases hnormal : lp.lpFlags = lpNormal
          · by_cases htakes : takes tuple = true
            · simp [hnormal, htakes, normalTuples, lpDead_ne_lpNormal, htail]
            · simp [hnormal, htakes, normalTuples, htail]
          · simp [hnormal, normalTuples, htail]

theorem marked_pos_iff :
    0 < (marked takes lps tuples).2 ↔ ∃ tuple ∈ normalTuples lps tuples, takes tuple = true := by
  induction lps generalizing tuples with
  | nil => simp [marked, normalTuples]
  | cons lp lps ih =>
      cases tuples with
      | nil => simpa [marked, normalTuples] using @ih []
      | cons tuple tuples =>
          have htail := @ih tuples
          simp only [marked, List.head?_cons, List.tail_cons, Option.any_some]
          by_cases hnormal : lp.lpFlags = lpNormal
          · by_cases htakes : takes tuple = true
            · simp [hnormal, htakes, normalTuples]
            · simp [hnormal, htakes, normalTuples, htail]
          · simp [hnormal, normalTuples, htail]

theorem markReclaimable_eq_marked :
    markReclaimable cutoffXid lps tuples = marked (expired cutoffXid) lps tuples := by
  induction lps generalizing tuples with
  | nil => rfl
  | cons lp lps ih =>
      have htail := @ih tuples.tail
      cases tuples with
      | nil =>
          rw [List.tail_nil] at htail
          simp [markReclaimable, marked, reclaimable, htail]
      | cons tuple tuples =>
          simp only [markReclaimable, marked, List.head?_cons, List.tail_cons, reclaimable_some,
            Option.any_some, Bool.and_eq_true, decide_eq_true_eq] at htail ⊢
          simp only [htail]
          by_cases htakes : lp.lpFlags = lpNormal ∧ expired cutoffXid tuple = true
          · simp only [htakes, and_self, if_true]
          · simp only [htakes, if_false]

theorem prunable_some (lp : LinePointer) {tuple : Bytes} (hlength : 24 ≤ tuple.length) :
    HeapPage.prunable cutoffXid lp (some tuple) =
      some (decide (lp.lpFlags = lpNormal) && wordExpired cutoffXid tuple) := by
  have hslice : slice tuple 16 24 = some ((tuple.drop 16).take 8) := if_pos ⟨by decide, hlength⟩
  have hlong : ¬tuple.length < 23 := by omega
  unfold HeapPage.prunable
  by_cases hnormal : lp.lpFlags = lpNormal
  · simp only [hnormal, ne_eq, not_true_eq_false, if_false, hlong, hslice, decide_true,
      Bool.true_and, Option.bind_eq_bind, Option.bind_some]
    rfl
  · simp [hnormal]

theorem prunable_of_ne (lp : LinePointer) (hnormal : lp.lpFlags ≠ lpNormal)
    (tuple : Option Bytes) : HeapPage.prunable cutoffXid lp tuple = some false := if_pos hnormal

theorem markPrunable_eq_marked (hlength : ∀ tuple ∈ normalTuples lps tuples, 24 ≤ tuple.length) :
    HeapPage.markPrunable cutoffXid lps tuples =
      some (marked (wordExpired cutoffXid) lps tuples) := by
  induction lps generalizing tuples with
  | nil => rfl
  | cons lp lps ih =>
      cases tuples with
      | nil =>
          have hnone : HeapPage.prunable cutoffXid lp none = some false := by
            unfold HeapPage.prunable
            split
            · rfl
            · rfl
          have htail := @ih [] (by cases lps <;> simp [normalTuples])
          simp [HeapPage.markPrunable, marked, hnone, htail]
      | cons tuple tuples =>
          by_cases hnormal : lp.lpFlags = lpNormal
          · have hmem : normalTuples (lp :: lps) (tuple :: tuples) =
                tuple :: normalTuples lps tuples := if_pos hnormal
            rw [hmem] at hlength
            have hhead := @prunable_some cutoffXid lp _ (hlength tuple List.mem_cons_self)
            have htail := ih fun t ht => hlength t (List.mem_cons_of_mem _ ht)
            by_cases hword : wordExpired cutoffXid tuple = true
            · simp [HeapPage.markPrunable, marked, hhead, htail, hnormal, hword]
            · simp [HeapPage.markPrunable, marked, hhead, htail, hnormal, hword]
          · have hmem : normalTuples (lp :: lps) (tuple :: tuples) = normalTuples lps tuples :=
              if_neg hnormal
            rw [hmem] at hlength
            have htail := ih hlength
            simp [HeapPage.markPrunable, marked, prunable_of_ne lp hnormal, htail, hnormal]

end Marking

section Compaction

variable {lps : List LinePointer} {tuples : List Bytes}

/-- The tuples that a page holds. -/
def decoded (page : HeapPage) : List Tuple := (contents page).filterMap decodeTuple

def nonempty (tuples : List Bytes) : List Bytes := tuples.filter fun tuple => !tuple.isEmpty

theorem nonempty_cons (tuple : Bytes) (tuples : List Bytes) :
    nonempty (tuple :: tuples) = nonempty [tuple] ++ nonempty tuples :=
  @List.filter_append _ _ [tuple] tuples

theorem normalTuples_nil_right (lps : List LinePointer) : normalTuples lps [] = [] := by
  cases lps with
  | nil => rfl
  | cons lp lps => rfl

/-- A normal slot without a tuple gets an empty one. -/
theorem nonempty_liveSlots :
    nonempty (normalTuples ((HeapPage.liveSlots lps tuples).map Prod.fst)
        ((HeapPage.liveSlots lps tuples).map Prod.snd)) = nonempty (normalTuples lps tuples) := by
  induction lps generalizing tuples with
  | nil => rfl
  | cons lp lps ih =>
      have htail := @ih tuples.tail
      rw [HeapPage.liveSlots]
      by_cases hdead : lp.lpFlags = lpDead
      · rw [if_neg (not_not_intro hdead), htail]
        cases tuples with
        | nil => rw [List.tail_nil, normalTuples_nil_right, normalTuples_nil_right]
        | cons tuple tuples => simp [normalTuples, hdead, lpDead_ne_lpNormal]
      · rw [if_pos hdead, List.map_cons, List.map_cons, normalTuples]
        cases tuples with
        | nil =>
            rw [List.tail_nil, normalTuples_nil_right] at htail
            rw [normalTuples_nil_right]
            split
            · exact htail
            · exact htail
        | cons tuple tuples =>
            rw [normalTuples]
            split
            · exact (nonempty_cons tuple _).trans
                ((congrArg (nonempty [tuple] ++ ·) htail).trans (nonempty_cons tuple _).symm)
            · exact htail

theorem filterMap_nonempty {tuples : List Bytes} :
    (nonempty tuples).filterMap decodeTuple = tuples.filterMap decodeTuple := by
  rw [nonempty, List.filterMap_filter]
  apply List.filterMap_congr
  intro tuple _
  cases tuple with
  | nil => rfl
  | cons byte bytes => rfl

theorem sum_length_nonempty (tuples : List Bytes) :
    ((nonempty tuples).map List.length).sum = (tuples.map List.length).sum := by
  induction tuples with
  | nil => rfl
  | cons tuple tuples ih =>
      cases tuple with
      | nil => simpa [nonempty] using ih
      | cons byte bytes => simpa [nonempty] using ih

theorem totalLen_eq_sum (lps : List LinePointer) (tuples : List Bytes) :
    HeapPage.totalLen lps tuples = ((normalTuples lps tuples).map List.length).sum := by
  rw [← flatten_normalTuples_length, List.length_flatten, List.map_reverse, List.sum_reverse]

/-- `compact` panics exactly if the tuples together are longer than a page. -/
theorem compact_isSome_iff (page : HeapPage) :
    (∃ page', page.compact = some page') ↔
      ((contents page).map List.length).sum ≤ pageSize := by
  rw [contents, ← sum_length_nonempty, ← nonempty_liveSlots, sum_length_nonempty,
    ← totalLen_eq_sum]
  simp only [HeapPage.compact, Option.bind_eq_bind, Option.bind_eq_some_iff]
  constructor
  · rintro ⟨page', upper, hsub, -⟩
    exact (checkedSub_eq_some.mp hsub).1
  · intro hle
    exact ⟨_, _, checkedSub_eq_some.mpr ⟨hle, rfl⟩, rfl⟩

theorem decoded_compact {page page' : HeapPage} (h : page.compact = some page') :
    decoded page' = decoded page := by
  obtain ⟨upper, -, hpage'⟩ := Option.bind_eq_some_iff.mp h
  cases hpage'
  rw [decoded, decoded, ← filterMap_nonempty, contents, nonempty_liveSlots, filterMap_nonempty]
  rfl

end Compaction

section Pruning

variable {cutoffXid : UInt32} {page : HeapPage}

/-- Every tuple is the encoding of one. -/
def Encoded (page : HeapPage) : Prop :=
  ∀ bytes ∈ contents page, ∃ tup, serializeTuple tup = .ok bytes

/-- The tuple was not deleted before the cutoff. -/
def remains (cutoffXid : UInt32) (tup : Tuple) : Bool :=
  !(tup.xmax ≠ 0 && decide (tup.xmax < cutoffXid.toUInt64))

/-- What vacuum makes of the page. -/
def vacuumed (cutoffXid : UInt32) (page : HeapPage) : Option HeapPage :=
  if 0 < reclaimed cutoffXid page then sweptPage cutoffXid page else some page

/-- The page without the taken tuples, with a new header if there are any. -/
def without (takes : Bytes → Bool) (header : PageHeader) (page : HeapPage) : Option HeapPage :=
  let (linePointers, count) := marked takes page.linePointers page.tuples
  if 0 < count then { page with header := header, linePointers := linePointers }.compact
  else some page

/-- Neither prune nor vacuum panics, and both leave the tuples that were not deleted
before the cutoff. -/
def PrunesAsVacuum (cutoffXid : UInt32) (page : HeapPage) : Prop :=
  ∃ pruned result swept, page.prune cutoffXid = some (pruned, result) ∧
    vacuumed cutoffXid page = some swept ∧
    decoded pruned = (decoded page).filter (remains cutoffXid) ∧
    decoded pruned = decoded swept

/-- The word at byte 16 of a tuple says of it what its `xmax` says. -/
def WordsTell (cutoffXid : UInt32) (page : HeapPage) : Prop :=
  ∀ tup ∈ decoded page, wordExpired cutoffXid (encodeTuple tup) = !remains cutoffXid tup

/-- Where tuples go, those that remain are together not longer than a page. -/
def RemainderFits (cutoffXid : UInt32) (page : HeapPage) : Prop :=
  (∃ tup ∈ decoded page, remains cutoffXid tup = false) →
    ((((decoded page).filter (remains cutoffXid)).map encodeTuple).map List.length).sum ≤ pageSize

theorem Encoded.eq_map (h : Encoded page) :
    contents page = (decoded page).map encodeTuple ∧
      ∀ tup ∈ decoded page, decodeTuple (encodeTuple tup) = some tup := by
  unfold Encoded at h
  unfold decoded
  generalize contents page = tuples at h
  induction tuples with
  | nil => exact ⟨rfl, nofun⟩
  | cons tuple tuples ih =>
      obtain ⟨tup, htup⟩ := h tuple List.mem_cons_self
      have hdecoded : decodeTuple tuple = some tup := by
        have hok := LawfulBincode.deserialize_serialize htup
        simp only [deserializeTuple] at hok
        split at hok
        · rename_i heq
          cases hok
          exact heq
        · cases hok
      obtain rfl := serializeTuple_eq_ok htup
      obtain ⟨hmap, hdecode⟩ := ih fun bytes hbytes => h bytes (List.mem_cons_of_mem _ hbytes)
      rw [List.filterMap_cons_some hdecoded, List.map_cons, ← hmap]
      exact ⟨rfl, List.forall_mem_cons.mpr ⟨hdecoded, hdecode⟩⟩

theorem expired_encodeTuple {tup : Tuple} (h : decodeTuple (encodeTuple tup) = some tup) :
    expired cutoffXid (encodeTuple tup) = !remains cutoffXid tup := by
  simp only [expired, deserializeTuple, h, remains, Bool.not_not]

section Without

variable {takes : Bytes → Bool} {header : PageHeader}

theorem decoded_without {page' : HeapPage} (h : without takes header page = some page') :
    decoded page' = ((contents page).filter fun tuple => !takes tuple).filterMap decodeTuple := by
  unfold without at h
  simp only at h
  split at h
  · rw [decoded_compact h, decoded, contents, normalTuples_marked]
    rfl
  · rename_i hnone
    cases h
    rw [List.filter_eq_self.mpr]
    · rfl
    · intro tuple htuple
      have hkept : ¬takes tuple = true :=
        fun htakes => hnone (marked_pos_iff.mpr ⟨tuple, htuple, htakes⟩)
      simpa using hkept

theorem without_isSome_iff :
    (∃ page', without takes header page = some page') ↔
      ((∃ tuple ∈ contents page, takes tuple = true) →
        (((contents page).filter fun tuple => !takes tuple).map List.length).sum ≤ pageSize) := by
  unfold without
  simp only
  split
  · rename_i hsome
    rw [compact_isSome_iff, contents, normalTuples_marked]
    exact (imp_iff_right (marked_pos_iff.mp hsome)).symm
  · rename_i hnone
    refine iff_of_true ⟨page, rfl⟩ fun htakes => absurd (marked_pos_iff.mpr htakes) hnone

theorem Encoded.filter_contents (h : Encoded page) (takes : Bytes → Bool) :
    (contents page).filter (fun tuple => !takes tuple) =
      ((decoded page).filter fun tup => !takes (encodeTuple tup)).map encodeTuple := by
  rw [h.eq_map.1, List.filter_map]
  rfl

theorem Encoded.decoded_without (h : Encoded page) {page' : HeapPage}
    (hwithout : without takes header page = some page') :
    decoded page' = (decoded page).filter fun tup => !takes (encodeTuple tup) := by
  have hdecode : ∀ tup ∈ (decoded page).filter fun tup => !takes (encodeTuple tup),
      decodeTuple (encodeTuple tup) = some tup :=
    fun tup htup => h.eq_map.2 tup (List.mem_filter.mp htup).1
  rw [PruneAgreement.decoded_without hwithout, h.filter_contents, List.filterMap_map]
  exact (List.filterMap_congr hdecode).trans List.filterMap_some

/-- For a test that says of the tuples of a page what their `xmax` says. -/
theorem Encoded.without_isSome_iff (h : Encoded page)
    (htakes : ∀ tup ∈ decoded page, takes (encodeTuple tup) = !remains cutoffXid tup) :
    (∃ page', without takes header page = some page') ↔ RemainderFits cutoffXid page := by
  have hfilter : ((decoded page).filter fun tup => !takes (encodeTuple tup)) =
      (decoded page).filter (remains cutoffXid) :=
    List.filter_congr fun tup htup => by rw [htakes tup htup, Bool.not_not]
  have hany : (∃ tuple ∈ contents page, takes tuple = true) ↔
      ∃ tup ∈ decoded page, remains cutoffXid tup = false := by
    rw [h.eq_map.1]
    simp only [List.mem_map, exists_exists_and_eq_and]
    apply exists_congr
    intro tup
    apply and_congr_right
    intro htup
    rw [htakes tup htup, Bool.not_eq_true']
  rw [PruneAgreement.without_isSome_iff, hany, h.filter_contents, hfilter, RemainderFits]

end Without

theorem vacuumed_eq_without :
    vacuumed cutoffXid page = without (expired cutoffXid) page.header page := by
  unfold vacuumed without reclaimed sweptPage
  rw [markReclaimable_eq_marked]

/-- The page that `vacuum_relation` leaves in storage has the tuples of `vacuumed`. -/
theorem decoded_sweptTo {page' : HeapPage} (h : SweptTo cutoffXid page page') :
    ∃ swept, vacuumed cutoffXid page = some swept ∧ decoded page' = decoded swept := by
  rcases h with ⟨hnone, rfl⟩ | ⟨written, hpos, -, hswept, rfl⟩
  · have hzero : ¬0 < reclaimed cutoffXid page' := by omega
    exact ⟨page', if_neg hzero, rfl⟩
  · refine ⟨written, (if_pos hpos).trans hswept, ?_⟩
    rw [decoded, decoded, contents_stored]

theorem prune_eq_without (hlength : ∀ tuple ∈ contents page, 24 ≤ tuple.length) :
    ∃ result, page.prune cutoffXid =
      (without (wordExpired cutoffXid) { page.header with pdPruneXid := cutoffXid } page).map
        fun pruned => (pruned, result) := by
  unfold HeapPage.prune without
  rw [markPrunable_eq_marked hlength]
  simp only [Option.bind_eq_bind, Option.bind_some]
  generalize marked (wordExpired cutoffXid) page.linePointers page.tuples = slots
  refine ⟨⟨slots.2, 0, decide (0 < slots.2)⟩, ?_⟩
  split
  · exact Option.map_eq_bind.symm
  · rfl

theorem Encoded.length_le (h : Encoded page) : ∀ tuple ∈ contents page, 24 ≤ tuple.length := by
  intro tuple htuple
  rw [h.eq_map.1] at htuple
  obtain ⟨tup, -, rfl⟩ := List.mem_map.mp htuple
  rw [encodeTuple_length]
  omega

end Pruning

variable {page : HeapPage}

/-- Pruning a page of encoded tuples takes the tuples that vacuum takes, and does not
panic, exactly if the word at byte 16 of each says what its `xmax` says and the tuples
that remain fit a page. -/
theorem prunes_as_vacuum_iff (cutoffXid : UInt32) (h : Encoded page) :
    PrunesAsVacuum cutoffXid page ↔ WordsTell cutoffXid page ∧ RemainderFits cutoffXid page := by
  have hexpired : ∀ tup ∈ decoded page,
      expired cutoffXid (encodeTuple tup) = !remains cutoffXid tup :=
    fun tup htup => expired_encodeTuple (h.eq_map.2 tup htup)
  obtain ⟨result, hprune⟩ := @prune_eq_without cutoffXid page h.length_le
  constructor
  · rintro ⟨pruned, result', swept, hpruned, hswept, hremain, -⟩
    rw [hprune, Option.map_eq_some_iff] at hpruned
    obtain ⟨pruned', hwithout, hpair⟩ := hpruned
    cases hpair
    rw [vacuumed_eq_without] at hswept
    refine ⟨?_, (h.without_isSome_iff hexpired).mp ⟨swept, hswept⟩⟩
    intro tup htup
    have hmem : tup ∈ (decoded page).filter (fun tup => !wordExpired cutoffXid (encodeTuple tup)) ↔
        tup ∈ (decoded page).filter (remains cutoffXid) := by
      rw [← hremain, h.decoded_without hwithout]
    simp only [List.mem_filter, htup, true_and, Bool.not_eq_true'] at hmem
    cases hword : wordExpired cutoffXid (encodeTuple tup) with
    | false => rw [hmem.mp hword, Bool.not_true]
    | true =>
        cases hremains : remains cutoffXid tup with
        | false => rfl
        | true =>
            rw [hmem.mpr hremains] at hword
            cases hword
  · rintro ⟨hwords, hfits⟩
    obtain ⟨pruned, hwithout⟩ := (h.without_isSome_iff hwords).mpr hfits
    obtain ⟨swept, hswept⟩ := (h.without_isSome_iff hexpired).mpr hfits
    have hpruned := h.decoded_without hwithout
    have hsame : ∀ tup ∈ decoded page,
        (!wordExpired cutoffXid (encodeTuple tup)) = remains cutoffXid tup := by
      intro tup htup
      rw [hwords tup htup, Bool.not_not]
    refine ⟨pruned, result, swept, ?_, vacuumed_eq_without.trans hswept, ?_, ?_⟩
    · rw [hprune, hwithout, Option.map_some]
    · rw [hpruned, List.filter_congr hsame]
    · rw [hpruned, h.decoded_without hswept]
      apply List.filter_congr
      intro tup htup
      rw [hwords tup htup, hexpired tup htup]

/-- The word at byte 16 of a tuple without slots and data is its `xmin`. -/
def bareVersions : HeapPage :=
  twoVersions { version 1 2 0 with slots := [], data := [] }
    { version 5 0 0 with slots := [], data := [] }

theorem prunes_as_vacuum_bareVersions : PrunesAsVacuum 3 bareVersions := by
  refine (prunes_as_vacuum_iff 3 ?_).mpr ⟨?_, ?_⟩
  · intro bytes hbytes
    rcases List.mem_pair.mp hbytes with rfl | rfl
    · exact ⟨{ version 1 2 0 with slots := [], data := [] }, rfl⟩
    · exact ⟨{ version 5 0 0 with slots := [], data := [] }, rfl⟩
  · show ∀ tup ∈ decoded bareVersions, wordExpired 3 (encodeTuple tup) = !remains 3 tup
    decide
  · intro _
    decide

/-- Of a row with one column `prune` reads the value and part of `xmin`, and leaves it. -/
theorem prune_leaves_deleted :
    (∀ bytes ∈ contents deletedThenLive, ∃ tup, serializeTuple tup = .ok bytes) ∧
      vacuumed 3 deletedThenLive ≠ some deletedThenLive ∧
      (deletedThenLive.prune 3).map Prod.fst = some deletedThenLive ∧
      ¬PrunesAsVacuum 3 deletedThenLive := by
  have hprune : (deletedThenLive.prune 3).map Prod.fst = some deletedThenLive := by decide
  refine ⟨?_, by decide, hprune, ?_⟩
  · intro bytes hbytes
    rcases List.mem_pair.mp hbytes with rfl | rfl
    · exact ⟨version 1 2 97, rfl⟩
    · exact ⟨version 1 0 98, rfl⟩
  · rintro ⟨pruned, result, swept, hpruned, -, hremain, -⟩
    rw [hpruned] at hprune
    cases hprune
    exact absurd hremain (by decide)

end PostgressRs.Executor.PruneAgreement
