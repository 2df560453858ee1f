import Mathlib.Logic.Basic

/-!
Finite runs of a labelled transition system, kept as the list of their
transitions, and the invariant rules for them.
-/

namespace PostgressRs.Lib.Transitions

variable {σ ℓ : Type}

/-- One transition: the state before, the label, the state after. -/
structure Transition (σ ℓ : Type) where
  source : σ
  label : ℓ
  target : σ

/-- `Run step s trace t`: the transitions of `trace`, taken in order, lead from
`s` to `t`. -/
inductive Run (step : σ → ℓ → σ → Prop) : σ → List (Transition σ ℓ) → σ → Prop
  | nil (s : σ) : Run step s [] s
  | cons {s s' t : σ} {l : ℓ} {trace : List (Transition σ ℓ)} :
      step s l s' → Run step s' trace t → Run step s (⟨s, l, s'⟩ :: trace) t

namespace Run

variable {step : σ → ℓ → σ → Prop} {s t : σ} {trace : List (Transition σ ℓ)}

theorem append {u : σ} {rest : List (Transition σ ℓ)}
    (h : Run step s trace t) (h' : Run step t rest u) : Run step s (trace ++ rest) u := by
  induction h with
  | nil _ => exact h'
  | cons hstep _ ih => exact cons hstep (ih h')

theorem append_inv {u : σ} {before after : List (Transition σ ℓ)}
    (h : Run step s (before ++ after) u) :
    ∃ m, Run step s before m ∧ Run step m after u := by
  induction before generalizing s with
  | nil => exact ⟨s, nil s, h⟩
  | cons tr before ih =>
      cases h with
      | cons hstep hrest =>
          obtain ⟨m, hbefore, hafter⟩ := ih hrest
          exact ⟨m, cons hstep hbefore, hafter⟩

/-- The transition between two parts of a run starts where the first part ends. -/
theorem append_cons_inv {u : σ} {before after : List (Transition σ ℓ)} {tr : Transition σ ℓ}
    (h : Run step s (before ++ tr :: after) u) :
    Run step s before tr.source ∧ step tr.source tr.label tr.target ∧
      Run step tr.target after u := by
  obtain ⟨m, hbefore, hrest⟩ := append_inv h
  cases hrest with
  | cons hstep hafter => exact ⟨hbefore, hstep, hafter⟩

/-- The run of a step function over given labels. -/
theorem exists_of_foldlM {next : σ → ℓ → Option σ} {labels : List ℓ}
    (h : labels.foldlM next s = some t) :
    ∃ trace, Run (fun s l s' => next s l = some s') s trace t ∧
      trace.map Transition.label = labels := by
  induction labels generalizing s with
  | nil =>
      obtain rfl := Option.some.inj h
      exact ⟨[], nil s, rfl⟩
  | cons l labels ih =>
      rw [List.foldlM_cons, Option.bind_eq_bind, Option.bind_eq_some_iff] at h
      obtain ⟨s', hstep, hrest⟩ := h
      obtain ⟨trace, hrun, hlabels⟩ := ih hrest
      exact ⟨⟨s, l, s'⟩ :: trace, cons hstep hrun, congrArg (l :: ·) hlabels⟩

/-- Invariant rule: what every guarded step preserves holds before and after
each step of a run whose steps are all guarded. -/
theorem invariant (Inv : σ → Prop) (Guard : σ → ℓ → Prop)
    (hstep : ∀ s l s', Inv s → Guard s l → step s l s' → Inv s')
    (hrun : Run step s trace t) (hinit : Inv s)
    (hguard : ∀ tr ∈ trace, Guard tr.source tr.label) :
    Inv t ∧ ∀ tr ∈ trace, Inv tr.source ∧ Inv tr.target := by
  induction hrun with
  | nil _ => exact ⟨hinit, by simp⟩
  | cons h _ ih =>
      have hnext := hstep _ _ _ hinit (hguard _ List.mem_cons_self) h
      obtain ⟨hlast, hall⟩ := ih hnext fun tr htr =>
        hguard tr (List.mem_cons_of_mem _ htr)
      refine ⟨hlast, ?_⟩
      intro tr htr
      rcases List.mem_cons.mp htr with rfl | htr
      · exact ⟨hinit, hnext⟩
      · exact hall tr htr

/-- Invariant rule for a property of the state and the transitions that led
to it. -/
theorem invariant_history (Inv : List (Transition σ ℓ) → σ → Prop) (Guard : σ → ℓ → Prop)
    (hstep : ∀ past s l s', Inv past s → Guard s l → step s l s' → Inv (past ++ [⟨s, l, s'⟩]) s')
    (hrun : Run step s trace t) (past : List (Transition σ ℓ)) (hinit : Inv past s)
    (hguard : ∀ tr ∈ trace, Guard tr.source tr.label) : Inv (past ++ trace) t := by
  induction hrun generalizing past with
  | nil _ => simpa using hinit
  | cons h _ ih =>
      have hnext := hstep _ _ _ _ hinit (hguard _ List.mem_cons_self) h
      have hlast := ih _ hnext fun tr htr => hguard tr (List.mem_cons_of_mem _ htr)
      simpa using hlast

/-- Invariant rule without a guard. -/
theorem invariant_of_step (Inv : σ → Prop)
    (hstep : ∀ s l s', Inv s → step s l s' → Inv s')
    (hrun : Run step s trace t) (hinit : Inv s) :
    Inv t ∧ ∀ tr ∈ trace, Inv tr.source ∧ Inv tr.target := by
  have hguarded : ∀ s l s', Inv s → True → step s l s' → Inv s' :=
    fun s l s' hs _ h => hstep s l s' hs h
  exact invariant Inv (fun _ _ => True) hguarded hrun hinit fun _ _ => trivial

/-- When a step from a good state ends in a good state exactly if it is
guarded, a run stays in good states exactly if all its steps are guarded. -/
theorem invariant_iff (Inv : σ → Prop) (Guard : σ → ℓ → Prop)
    (hstep : ∀ s l s', Inv s → step s l s' → (Inv s' ↔ Guard s l))
    (hrun : Run step s trace t) (hinit : Inv s) :
    (∀ tr ∈ trace, Inv tr.target) ↔ ∀ tr ∈ trace, Guard tr.source tr.label := by
  constructor
  · induction hrun with
    | nil _ => simp
    | cons h _ ih =>
        intro hall tr htr
        have hnext := hall _ List.mem_cons_self
        rcases List.mem_cons.mp htr with rfl | htr
        · exact (hstep _ _ _ hinit h).mp hnext
        · exact ih hnext (fun tr htr => hall tr (List.mem_cons_of_mem _ htr)) tr htr
  · intro hguard tr htr
    exact ((invariant Inv Guard (fun s l s' hs hg h => (hstep s l s' hs h).mpr hg) hrun hinit
      hguard).2 tr htr).2

end Run

end PostgressRs.Lib.Transitions
