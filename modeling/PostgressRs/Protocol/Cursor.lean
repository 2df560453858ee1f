import Mathlib.Algebra.Group.Int.Defs
import Mathlib.Algebra.Group.Nat.Defs
import Mathlib.Tactic.Common

/-!
Cursors (`src/protocol/cursor.rs`) on a machine of 64 bits.  A `none` is a panic.
-/

namespace PostgressRs.Protocol.Cursor

/-- A cursor over the rows of a `Vec`, which has at most `isize::MAX` of them. -/
structure Cursor (α : Type) where
  rows : List α
  position : Nat
  fetchSize : UInt64
  rowsFit : rows.length < 2 ^ 63

/-- `n as i32`. -/
def asI32 (n : UInt64) : Int32 := Int32.ofInt n.toNat

/-- `i as usize`. -/
def asUsize (i : Int32) : Nat := (i.toInt % 2 ^ 64).toNat

namespace Cursor

variable {α : Type}

def new (rows : List α) (rowsFit : rows.length < 2 ^ 63) (fetchSize : UInt64) : Cursor α :=
  ⟨rows, 0, fetchSize, rowsFit⟩

/-- How many rows a call asks for. -/
def requested (self : Cursor α) (count : Int32) : Nat :=
  asUsize (if count < 0 then asI32 self.fetchSize else count)

/-- The sum wraps around, and the slice panics if it does not end behind its start. -/
def fetch (self : Cursor α) (count : Int32) : Option (List α × Cursor α) :=
  let stop := min ((self.position + self.requested count) % 2 ^ 64) self.rows.length
  if self.position ≤ stop then
    some ((self.rows.take stop).drop self.position, { self with position := stop })
  else none

def moveTo (self : Cursor α) (position : Int64) : Cursor α :=
  if position < 0 then { self with position := 0 }
  else if self.rows.length ≤ position.toInt.toNat then { self with position := self.rows.length }
  else { self with position := position.toInt.toNat }

end Cursor

section Runs

variable {α : Type}

inductive CursorOp where
  | fetch (count : Int32)
  | moveTo (position : Int64)

def step (cursor : Cursor α) : CursorOp → Option (Cursor α)
  | .fetch count => (cursor.fetch count).map Prod.snd
  | .moveTo position => some (cursor.moveTo position)

def run (cursor : Cursor α) (ops : List CursorOp) : Option (Cursor α) := ops.foldlM step cursor

/-- How many rows a call means. -/
def intended (cursor : Cursor α) (count : Int32) : Nat :=
  if count < 0 then cursor.fetchSize.toNat else count.toInt.toNat

/-- The call returns the rows that it means and moves behind them. -/
def FetchesNext (cursor : Cursor α) (count : Int32) : Prop :=
  ∃ next : Cursor α,
    cursor.fetch count =
      some ((cursor.rows.drop cursor.position).take (intended cursor count), next) ∧
    next.rows = cursor.rows ∧ next.fetchSize = cursor.fetchSize ∧
    next.position =
      cursor.position + min (intended cursor count) (cursor.rows.length - cursor.position)

end Runs

section Casts

theorem asUsize_asI32 (n : UInt64) :
    asUsize (asI32 n) =
      if n.toNat % 2 ^ 32 < 2 ^ 31 then n.toNat % 2 ^ 32
      else n.toNat % 2 ^ 32 + (2 ^ 64 - 2 ^ 32) := by
  rw [asUsize, asI32, Int32.toInt_ofInt, Int.bmod]
  have hsize : ((Int32.size : Nat) : Int) = 2 ^ 32 := rfl
  rw [hsize]
  split
  · rw [if_pos (by omega)]
    omega
  · rw [if_neg (by omega)]
    omega

theorem asUsize_of_nonneg {count : Int32} (h : ¬count < 0) : asUsize count = count.toInt.toNat := by
  have hnonneg : 0 ≤ count.toInt := by
    rw [Int32.lt_iff_toInt_lt] at h
    exact Int.not_lt.mp h
  have hlt : count.toInt < 2 ^ 31 := Int32.toInt_lt count
  rw [asUsize]
  omega

end Casts

section Discipline

variable {α : Type} {cursor next : Cursor α} {count : Int32}

theorem requested_of_neg (h : count < 0) :
    cursor.requested count = asUsize (asI32 cursor.fetchSize) := by
  rw [Cursor.requested, if_pos h]

theorem requested_of_nonneg (h : ¬count < 0) :
    cursor.requested count = intended cursor count ∧ intended cursor count < 2 ^ 31 := by
  have hlt : count.toInt < 2 ^ 31 := Int32.toInt_lt count
  rw [Cursor.requested, intended, if_neg h, if_neg h, asUsize_of_nonneg h]
  exact ⟨rfl, by omega⟩

theorem requested_lt (cursor : Cursor α) (count : Int32) : cursor.requested count < 2 ^ 64 := by
  rw [Cursor.requested, asUsize]
  omega

theorem fetch_of_lt (hpos : cursor.position ≤ cursor.rows.length)
    (h : cursor.position + cursor.requested count < 2 ^ 64) :
    cursor.fetch count =
      some ((cursor.rows.drop cursor.position).take (cursor.requested count),
        { cursor with
          position := min (cursor.position + cursor.requested count) cursor.rows.length }) := by
  rw [Cursor.fetch, Nat.mod_eq_of_lt h]
  show (if _ then _ else _) = _
  rw [if_pos (by omega), List.drop_take, Option.some.injEq, Prod.mk.injEq, List.take_eq_take_iff,
    List.length_drop]
  exact ⟨by omega, rfl⟩

theorem fetch_of_ge (h : 2 ^ 64 ≤ cursor.position + cursor.requested count)
    (hpos : cursor.position ≤ cursor.rows.length) : cursor.fetch count = none := by
  have hlt := requested_lt cursor count
  have hrows := cursor.rowsFit
  have hwrapped : (cursor.position + cursor.requested count) % 2 ^ 64 < cursor.position := by omega
  exact if_neg (by omega)

/-- A call is right exactly if it does not overflow and asks for as many of the rows that are
left as it means. -/
theorem fetchesNext_iff (hpos : cursor.position ≤ cursor.rows.length) :
    FetchesNext cursor count ↔
      cursor.position + cursor.requested count < 2 ^ 64 ∧
        min (cursor.requested count) (cursor.rows.length - cursor.position) =
          min (intended cursor count) (cursor.rows.length - cursor.position) := by
  constructor
  · rintro ⟨next, hfetch, -, -, hnext⟩
    have hlt : cursor.position + cursor.requested count < 2 ^ 64 := by
      by_contra hge
      rw [fetch_of_ge (Nat.le_of_not_lt hge) hpos] at hfetch
      cases hfetch
    refine ⟨hlt, ?_⟩
    rw [fetch_of_lt hpos hlt, Option.some.injEq, Prod.mk.injEq] at hfetch
    obtain ⟨-, rfl⟩ := hfetch
    have hstop : min (cursor.position + cursor.requested count) cursor.rows.length =
      cursor.position + min (intended cursor count) (cursor.rows.length - cursor.position) := hnext
    omega
  · rintro ⟨hlt, hmin⟩
    refine ⟨{ cursor with
      position := min (cursor.position + cursor.requested count) cursor.rows.length }, ?_, rfl,
      rfl, ?_⟩
    · rw [fetch_of_lt hpos hlt, Option.some.injEq, Prod.mk.injEq, List.take_eq_take_iff,
        List.length_drop]
      exact ⟨hmin, rfl⟩
    · show min (cursor.position + cursor.requested count) cursor.rows.length = _
      omega

/-- The fetch size survives the cast to 32 bits, or every row is fetched at once all the same. -/
def SizeFits (fetchSize rowCount : Nat) : Prop :=
  fetchSize < 2 ^ 31 ∨ (fetchSize % 2 ^ 32 < 2 ^ 31 ∧ rowCount ≤ fetchSize % 2 ^ 32) ∨
    (2 ^ 31 ≤ fetchSize % 2 ^ 32 ∧ rowCount + fetchSize % 2 ^ 32 < 2 ^ 32)

theorem SizeFits.fetchesNext (h : SizeFits cursor.fetchSize.toNat cursor.rows.length)
    (hpos : cursor.position ≤ cursor.rows.length) (count : Int32) : FetchesNext cursor count := by
  have hrows := cursor.rowsFit
  rw [fetchesNext_iff hpos]
  by_cases hcount : count < 0
  · rw [requested_of_neg hcount, asUsize_asI32, intended, if_pos hcount]
    have hsize : cursor.fetchSize.toNat < 2 ^ 64 := cursor.fetchSize.toNat_lt
    unfold SizeFits at h
    split
    · omega
    · omega
  · obtain ⟨heq, hlt⟩ := @requested_of_nonneg _ cursor count hcount
    rw [heq]
    exact ⟨by omega, rfl⟩

/-- The first and the last place decide. -/
theorem sizeFits_of_fetchesNext {first last : Cursor α} (hsize : last.fetchSize = first.fetchSize)
    (hrows : last.rows = first.rows) (hstart : first.position = 0)
    (hend : last.position = first.rows.length) (hfirst : FetchesNext first (-1))
    (hlast : FetchesNext last (-1)) : SizeFits first.fetchSize.toNat first.rows.length := by
  have hneg : (-1 : Int32) < 0 := by decide
  rw [fetchesNext_iff (by omega), requested_of_neg hneg, asUsize_asI32, intended,
    if_pos hneg, hstart] at hfirst
  rw [fetchesNext_iff (Nat.le_of_eq (by rw [hend, hrows])), requested_of_neg hneg, asUsize_asI32,
    hsize, hend] at hlast
  have hmin := hfirst.2
  have hlt := hlast.1
  unfold SizeFits
  split at hmin
  · rw [if_pos ‹_›] at hlt
    omega
  · rw [if_neg ‹_›] at hlt
    omega

end Discipline

section Calls

variable {α : Type} {cursor next : Cursor α}

/-- A cursor over the same rows that calls lead to. -/
structure SameRows (start cursor : Cursor α) : Prop where
  rows : cursor.rows = start.rows
  fetchSize : cursor.fetchSize = start.fetchSize
  position_le : cursor.position ≤ cursor.rows.length

theorem position_moveTo_le (cursor : Cursor α) (position : Int64) :
    (cursor.moveTo position).position ≤ cursor.rows.length := by
  unfold Cursor.moveTo
  split
  · exact Nat.zero_le _
  · split
    · exact Nat.le_refl _
    · exact Nat.le_of_not_le ‹_›

theorem moveTo_eq (cursor : Cursor α) (position : Int64) :
    ∃ place, cursor.moveTo position = { cursor with position := place } := by
  unfold Cursor.moveTo
  split
  · exact ⟨_, rfl⟩
  · split
    · exact ⟨_, rfl⟩
    · exact ⟨_, rfl⟩

theorem moveTo_last (cursor : Cursor α) :
    cursor.moveTo (Int64.ofNat cursor.rows.length) =
      { cursor with position := cursor.rows.length } := by
  have hint : (Int64.ofNat cursor.rows.length).toInt = cursor.rows.length :=
    Int64.toInt_ofNat_of_lt cursor.rowsFit
  have hneg : ¬Int64.ofNat cursor.rows.length < 0 := by
    rw [Int64.lt_iff_toInt_lt, hint]
    exact Int.not_lt.mpr (Int.natCast_nonneg _)
  rw [Cursor.moveTo, if_neg hneg, hint, Int.toNat_natCast, if_pos (Nat.le_refl _)]

theorem SameRows.step {start : Cursor α} (h : SameRows start cursor)
    (hfits : SizeFits start.fetchSize.toNat start.rows.length) (op : CursorOp) :
    ∃ next, step cursor op = some next ∧ SameRows start next := by
  have hfetches : ∀ count, FetchesNext cursor count := by
    rw [← h.rows, ← h.fetchSize] at hfits
    exact hfits.fetchesNext h.position_le
  cases op with
  | fetch count =>
      obtain ⟨next, hfetch, hrows, hsize, hpos⟩ := hfetches count
      have hle := h.position_le
      refine ⟨next, by rw [Cursor.step, hfetch]; rfl, hrows.trans h.rows, hsize.trans h.fetchSize,
        ?_⟩
      rw [hpos, hrows]
      omega
  | moveTo position =>
      have hle := position_moveTo_le cursor position
      obtain ⟨place, hmove⟩ := moveTo_eq cursor position
      refine ⟨_, rfl, ?_⟩
      rw [hmove] at hle ⊢
      exact ⟨h.rows, h.fetchSize, hle⟩

theorem SameRows.run {start : Cursor α} (h : SameRows start cursor)
    (hfits : SizeFits start.fetchSize.toNat start.rows.length) (ops : List CursorOp) :
    ∃ next, run cursor ops = some next ∧ SameRows start next := by
  induction ops generalizing cursor with
  | nil => exact ⟨cursor, rfl, h⟩
  | cons op ops ih =>
      obtain ⟨next, hstep, hnext⟩ := h.step hfits op
      obtain ⟨last, hrun, hlast⟩ := ih hnext
      refine ⟨last, ?_, hlast⟩
      rw [Cursor.run, List.foldlM_cons, hstep]
      exact hrun

/-- Calls keep a cursor in its rows and fetch what they mean exactly if the fetch size fits. -/
theorem cursor_discipline_iff (rows : List α) (rowsFit : rows.length < 2 ^ 63)
    (fetchSize : UInt64) :
    (∀ ops, ∃ cursor, run (.new rows rowsFit fetchSize) ops = some cursor ∧
        cursor.position ≤ rows.length ∧ cursor.rows = rows ∧
        ∀ count, FetchesNext cursor count) ↔
      SizeFits fetchSize.toNat rows.length := by
  constructor
  · intro h
    obtain ⟨first, hfirst, -, -, hfetch⟩ := h []
    obtain rfl := Option.some.inj hfirst
    obtain ⟨last, hlast, -, -, hfetchLast⟩ := h [.moveTo (Int64.ofNat rows.length)]
    have hmoved := (Option.some.inj hlast).symm.trans
      (moveTo_last (Cursor.new rows rowsFit fetchSize))
    subst hmoved
    refine sizeFits_of_fetchesNext ?_ ?_ ?_ ?_ (hfetch (-1)) (hfetchLast (-1))
    · rfl
    · rfl
    · rfl
    · rfl
  · intro hfits ops
    have hnew : SameRows (.new rows rowsFit fetchSize) (.new rows rowsFit fetchSize) :=
      ⟨rfl, rfl, Nat.zero_le _⟩
    obtain ⟨cursor, hrun, hsame⟩ := hnew.run hfits ops
    have hrows : cursor.rows = rows := hsame.rows
    refine ⟨cursor, hrun, hrows ▸ hsame.position_le, hrows, ?_⟩
    apply SizeFits.fetchesNext _ hsame.position_le
    rw [hsame.rows, hsame.fetchSize]
    exact hfits

theorem cursor_discipline_iff_three :
    ∃ cursor, run (.new ["a", "b"] (by decide) 3) [.fetch 1, .moveTo (-5), .fetch (-1)] =
        some cursor ∧
      cursor.position ≤ 2 ∧ cursor.rows = ["a", "b"] ∧ ∀ count, FetchesNext cursor count :=
  (cursor_discipline_iff ["a", "b"] (by decide) 3).mpr (.inl (by decide)) _

/-- Two rows and the greatest fetch size. -/
theorem greatest_fetch_size_panics :
    run (.new ["a", "b"] (by decide) 0xFFFFFFFFFFFFFFFF) [.fetch 1, .fetch (-1)] = none := by
  apply Option.isNone_iff_eq_none.mp
  decide +kernel

end Calls

end PostgressRs.Protocol.Cursor
