import PostgressRs.Lib.Transitions

/-!
Values kept under keys.  What a run leaves under a key was put there by the last of
its transitions that wrote that key.
-/

namespace PostgressRs.Lib.KeyedViews

open PostgressRs.Lib.Transitions

variable {σ ℓ κ α : Type}

/-- `view` shows what a state keeps under a key, and `write` what a transition puts
there: nothing new, or a value, or that the key is removed. -/
structure Records (step : σ → ℓ → σ → Prop) (view : σ → κ → Option α)
    (write : Transition σ ℓ → κ → Option (Option α)) : Prop where
  after : ∀ {s l s'}, step s l s' → ∀ k, view s' k = (write ⟨s, l, s'⟩ k).getD (view s k)

/-- No transition writes the key. -/
def Untouched (write : Transition σ ℓ → κ → Option (Option α)) (k : κ)
    (trace : List (Transition σ ℓ)) : Prop :=
  ∀ tr ∈ trace, write tr k = none

/-- The last transition that writes the key puts `value` there. -/
def LastWrite (write : Transition σ ℓ → κ → Option (Option α)) (k : κ) (value : Option α)
    (trace : List (Transition σ ℓ)) : Prop :=
  ∃ before tr after, trace = before ++ tr :: after ∧ write tr k = some value ∧
    Untouched write k after

section Histories

variable {write : Transition σ ℓ → κ → Option (Option α)} {k : κ} {value : Option α}
  {tr : Transition σ ℓ} {trace : List (Transition σ ℓ)}

theorem untouched_nil : Untouched write k [] := by simp [Untouched]

theorem untouched_cons :
    Untouched write k (tr :: trace) ↔ write tr k = none ∧ Untouched write k trace :=
  List.forall_mem_cons

theorem LastWrite.cons (tr : Transition σ ℓ) (h : LastWrite write k value trace) :
    LastWrite write k value (tr :: trace) := by
  obtain ⟨before, last, after, rfl, hlast, hafter⟩ := h
  exact ⟨tr :: before, last, after, rfl, hlast, hafter⟩

/-- Either no transition writes the key, or one of those that do is the last. -/
theorem untouched_or_lastWrite (write : Transition σ ℓ → κ → Option (Option α)) (k : κ)
    (trace : List (Transition σ ℓ)) :
    Untouched write k trace ∨ ∃ value, LastWrite write k value trace := by
  induction trace with
  | nil => exact Or.inl untouched_nil
  | cons tr trace ih =>
      rcases ih with huntouched | ⟨value, hlast⟩
      · cases hwrite : write tr k with
        | none => exact Or.inl (untouched_cons.mpr ⟨hwrite, huntouched⟩)
        | some value => exact Or.inr ⟨value, [], tr, trace, rfl, hwrite, huntouched⟩
      · exact Or.inr ⟨value, hlast.cons tr⟩

end Histories

namespace Records

variable {step : σ → ℓ → σ → Prop} {view : σ → κ → Option α}
  {write : Transition σ ℓ → κ → Option (Option α)} {s t : σ} {trace : List (Transition σ ℓ)}
  {k : κ}

theorem view_of_untouched (h : Records step view write) (hrun : Run step s trace t)
    (huntouched : Untouched write k trace) : view t k = view s k := by
  induction hrun with
  | nil _ => rfl
  | cons hstep _ ih =>
      obtain ⟨hfirst, hrest⟩ := untouched_cons.mp huntouched
      rw [ih hrest, h.after hstep k, hfirst, Option.getD_none]

theorem view_of_lastWrite (h : Records step view write) (hrun : Run step s trace t)
    {value : Option α} (hlast : LastWrite write k value trace) : view t k = value := by
  obtain ⟨before, tr, after, rfl, hwrite, huntouched⟩ := hlast
  obtain ⟨_, hstep, hafter⟩ := hrun.append_cons_inv
  rw [h.view_of_untouched hafter huntouched, h.after hstep k, hwrite, Option.getD_some]

/-- From a state that keeps nothing under the key, a run leaves a value there exactly if
the last write of the key was one of that value. -/
theorem view_eq_some_iff (h : Records step view write) (hrun : Run step s trace t)
    (hinit : view s k = none) {a : α} :
    view t k = some a ↔ LastWrite write k (some a) trace := by
  refine ⟨fun hview => ?_, h.view_of_lastWrite hrun⟩
  rcases untouched_or_lastWrite write k trace with huntouched | ⟨value, hlast⟩
  · rw [h.view_of_untouched hrun huntouched, hinit] at hview
    cases hview
  · rw [h.view_of_lastWrite hrun hlast] at hview
    exact hview ▸ hlast

end Records

end PostgressRs.Lib.KeyedViews
