import Mathlib.Data.Option.Basic

/-!
Truth values with an unknown one, and two ways to combine them: Kleene's connectives, and
the ones that are unknown as soon as one side is.
-/

namespace PostgressRs.Lib.TruthValues

/-- `none` is unknown. -/
abbrev Truth : Type := Option Bool

namespace Truth

def holds (t : Truth) : Bool := t = some true

def not (t : Truth) : Truth := t.map Bool.not

def and : Truth → Truth → Truth
  | some false, _ => some false
  | _, some false => some false
  | some true, some true => some true
  | _, _ => none

def or (s t : Truth) : Truth := ((s.not).and t.not).not

/-- Unknown as soon as one side is. -/
def lifted (op : Bool → Bool → Bool) : Truth → Truth → Truth
  | some a, some b => some (op a b)
  | _, _ => none

/-- One side alone would make a disjunction true, but the other one is unknown. -/
def Masked (s t : Truth) : Prop := s = some true ∧ t = none ∨ s = none ∧ t = some true

instance (s t : Truth) : Decidable (Masked s t) :=
  inferInstanceAs (Decidable (_ ∨ _))

theorem holds_and (s t : Truth) : (s.and t).holds = (s.holds && t.holds) := by
  rcases s with _ | _ | _ <;> rcases t with _ | _ | _ <;> rfl

theorem holds_or (s t : Truth) : (s.or t).holds = (s.holds || t.holds) := by
  rcases s with _ | _ | _ <;> rcases t with _ | _ | _ <;> rfl

theorem holds_lifted_and (s t : Truth) : (lifted Bool.and s t).holds = (s.and t).holds := by
  rcases s with _ | _ | _ <;> rcases t with _ | _ | _ <;> rfl

/-- Where nothing is masked, disjunctions are as true as Kleene's. -/
theorem holds_lifted_or_iff (s t : Truth) :
    (lifted Bool.or s t).holds = (s.or t).holds ↔ ¬Masked s t := by
  rcases s with _ | _ | _ <;> rcases t with _ | _ | _ <;> decide

theorem not_lifted_and (s t : Truth) :
    (lifted Bool.and s t).not = lifted Bool.or s.not t.not := by
  rcases s with _ | _ | _ <;> rcases t with _ | _ | _ <;> rfl

end Truth

end PostgressRs.Lib.TruthValues
