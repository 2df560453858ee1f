import Mathlib.Order.Defs.Unbundled

/-!
Stateful Rust functions that return `anyhow::Result`.  State changes made
before an `Err` is returned stay; a panic leaves no state to continue from.
-/

namespace PostgressRs.Lib.Procedure

/-- How a call ends. -/
inductive Outcome (σ α : Type) where
  | ok (value : α) (state : σ)
  | err (error : String) (state : σ)
  | panic

/-- The state a caller goes on with. -/
def Outcome.state? {σ α : Type} : Outcome σ α → Option σ
  | .ok _ state => some state
  | .err _ state => some state
  | .panic => none

/-- What the call returns to its caller. -/
def Outcome.result? {σ α : Type} : Outcome σ α → Option (Except String α)
  | .ok value _ => some (.ok value)
  | .err error _ => some (.error error)
  | .panic => none

/-- A fallible procedure over a mutable state. -/
def Proc (σ α : Type) : Type := σ → Outcome σ α

section

variable {σ α β : Type}

instance : Monad (Proc σ) where
  pure a := fun s => .ok a s
  bind p f := fun s =>
    match p s with
    | .ok a s' => f a s'
    | .err e s' => .err e s'
    | .panic => .panic

/-- `anyhow::bail!` and `?` on an `Err`. -/
def fail (error : String) : Proc σ α := fun s => .err error s

/-- The value of a computation that panics on `none`. -/
def orPanic : Option α → Proc σ α
  | some a => pure a
  | none => fun _ => .panic

/-- The `?` operator. -/
def ofExcept : Except String α → Proc σ α
  | .ok a => pure a
  | .error e => fail e

def read (f : σ → α) : Proc σ α := fun s => .ok (f s) s

def modify (f : σ → σ) : Proc σ Unit := fun s => .ok () (f s)

/-- A procedure on one component of the state. -/
def within {τ : Type} (get : τ → σ) (set : τ → σ → τ) (p : Proc σ α) : Proc τ α := fun t =>
  match p (get t) with
  | .ok a s => .ok a (set t s)
  | .err e s => .err e (set t s)
  | .panic => .panic

/-- `match p`: the caller handles the error and goes on. -/
def attempt (p : Proc σ α) : Proc σ (Except String α) := fun s =>
  match p s with
  | .ok a s' => .ok (.ok a) s'
  | .err e s' => .ok (.error e) s'
  | .panic => .panic

@[simp] theorem pure_apply (a : α) (s : σ) : (pure a : Proc σ α) s = .ok a s := rfl

theorem bind_apply (p : Proc σ α) (f : α → Proc σ β) (s : σ) :
    (p >>= f) s =
      match p s with
      | .ok a s' => f a s'
      | .err e s' => .err e s'
      | .panic => .panic := rfl

theorem bind_ok {p : Proc σ α} {f : α → Proc σ β} {s s' : σ} {a : α} (h : p s = .ok a s') :
    (p >>= f) s = f a s' := by
  simp [bind_apply, h]

theorem bind_panic {p : Proc σ α} {f : α → Proc σ β} {s : σ} (h : p s = .panic) :
    (p >>= f) s = .panic := by
  simp [bind_apply, h]

theorem bind_eq_ok {p : Proc σ α} {f : α → Proc σ β} {s s' : σ} {b : β} :
    (p >>= f) s = .ok b s' ↔ ∃ a t, p s = .ok a t ∧ f a t = .ok b s' := by
  rw [bind_apply]
  cases p s with
  | ok a t =>
      constructor
      · intro h
        exact ⟨a, t, rfl, h⟩
      · rintro ⟨_, _, heq, h⟩
        cases heq
        exact h
  | err e t => simp
  | panic => simp

theorem bind_eq_err {p : Proc σ α} {f : α → Proc σ β} {s s' : σ} {e : String} :
    (p >>= f) s = .err e s' ↔ p s = .err e s' ∨ ∃ a t, p s = .ok a t ∧ f a t = .err e s' := by
  rw [bind_apply]
  cases p s with
  | ok a t =>
      constructor
      · intro h
        exact Or.inr ⟨a, t, rfl, h⟩
      · rintro (h | ⟨_, _, heq, h⟩)
        · cases h
        · cases heq
          exact h
  | err e' t => simp
  | panic => simp

theorem bind_state {p : Proc σ α} {f : α → Proc σ β} {s s' : σ} :
    ((p >>= f) s).state? = some s' ↔
      (∃ e, p s = .err e s') ∨ ∃ a t, p s = .ok a t ∧ (f a t).state? = some s' := by
  rw [bind_apply]
  cases p s with
  | ok a t =>
      constructor
      · intro h
        exact Or.inr ⟨a, t, rfl, h⟩
      · rintro (⟨e, heq⟩ | ⟨_, _, heq, h⟩)
        · simp at heq
        · cases heq
          exact h
  | err e t => simp [Outcome.state?]
  | panic => simp [Outcome.state?]

theorem result_bind_pure (p : Proc σ α) (f : α → β) (s : σ) :
    ((p >>= fun a => pure (f a)) s).result? = (p s).result?.map (Except.map f) := by
  rw [bind_apply]
  cases p s with
  | ok a t => rfl
  | err e t => rfl
  | panic => rfl

@[simp] theorem orPanic_some (a : α) (s : σ) : (orPanic (some a) : Proc σ α) s = .ok a s := rfl

@[simp] theorem orPanic_none (s : σ) : (orPanic none : Proc σ α) s = .panic := rfl

@[simp] theorem ofExcept_ok (a : α) (s : σ) :
    (ofExcept (.ok a) : Proc σ α) s = .ok a s := rfl

@[simp] theorem ofExcept_error (e : String) (s : σ) :
    (ofExcept (.error e) : Proc σ α) s = .err e s := rfl

theorem ofExcept_eq_ok {x : Except String α} {a : α} {s s' : σ} :
    (ofExcept x : Proc σ α) s = .ok a s' ↔ x = .ok a ∧ s = s' := by
  cases x with
  | ok b => simp
  | error e => simp

theorem ofExcept_eq_err {x : Except String α} {e : String} {s s' : σ}
    (h : (ofExcept x : Proc σ α) s = .err e s') : s' = s := by
  cases x with
  | ok b => simp at h
  | error e' =>
      cases h
      rfl

theorem orPanic_eq_ok {x : Option α} {a : α} {s s' : σ} :
    (orPanic x : Proc σ α) s = .ok a s' ↔ x = some a ∧ s = s' := by
  cases x with
  | some b => simp
  | none => simp

theorem orPanic_not_err {x : Option α} {e : String} {s s' : σ} :
    (orPanic x : Proc σ α) s ≠ .err e s' := by
  cases x with
  | some b => simp
  | none => simp

@[simp] theorem read_apply (f : σ → α) (s : σ) : read f s = .ok (f s) s := rfl

@[simp] theorem modify_apply (f : σ → σ) (s : σ) : modify f s = .ok () (f s) := rfl

theorem within_ok {τ : Type} {get : τ → σ} {set : τ → σ → τ} {p : Proc σ α} {t : τ} {a : α}
    {s : σ} (h : p (get t) = .ok a s) : within get set p t = .ok a (set t s) := by
  simp [within, h]

theorem within_eq_ok {τ : Type} {get : τ → σ} {set : τ → σ → τ} {p : Proc σ α} {t t' : τ} {a : α} :
    within get set p t = .ok a t' ↔ ∃ s, p (get t) = .ok a s ∧ t' = set t s := by
  unfold within
  cases p (get t) with
  | ok b s =>
      constructor
      · intro h
        cases h
        exact ⟨s, rfl, rfl⟩
      · rintro ⟨_, heq, rfl⟩
        cases heq
        rfl
  | err e s => simp
  | panic => simp

theorem attempt_ok {p : Proc σ α} {s s' : σ} {a : α} (h : p s = .ok a s') :
    attempt p s = .ok (.ok a) s' := by
  simp [attempt, h]

theorem attempt_eq_ok {p : Proc σ α} {s s' : σ} {result : Except String α}
    (h : attempt p s = .ok result s') :
    (p s).state? = some s' ∧ (p s).result? = some result := by
  unfold attempt at h
  cases hp : p s with
  | ok a t =>
      rw [hp] at h
      cases h
      exact ⟨rfl, rfl⟩
  | err e t =>
      rw [hp] at h
      cases h
      exact ⟨rfl, rfl⟩
  | panic =>
      rw [hp] at h
      cases h

/-- Every outcome with a state relates it to the state the call started from. -/
def Keeps (R : σ → σ → Prop) (p : Proc σ α) : Prop :=
  ∀ s s', (p s).state? = some s' → R s s'

end

section Rules

variable {σ α β : Type} {R : σ → σ → Prop}

theorem Keeps.ok {p : Proc σ α} (h : Keeps R p) {s s' : σ} {a : α}
    (hp : p s = .ok a s') : R s s' :=
  h s s' (by rw [hp]; rfl)

theorem keeps_pure [Std.Refl R] (a : α) : Keeps R (pure a : Proc σ α) := by
  intro s s' h
  cases h
  exact refl_of R s

theorem keeps_fail [Std.Refl R] (e : String) : Keeps R (fail e : Proc σ α) := by
  intro s s' h
  cases h
  exact refl_of R s

theorem keeps_orPanic [Std.Refl R] (a : Option α) : Keeps R (orPanic a : Proc σ α) := by
  cases a with
  | some a => exact keeps_pure a
  | none =>
      intro s s' h
      cases h

theorem keeps_ofExcept [Std.Refl R] (a : Except String α) :
    Keeps R (ofExcept a : Proc σ α) := by
  cases a with
  | ok a => exact keeps_pure a
  | error e => exact keeps_fail e

theorem keeps_read [Std.Refl R] (f : σ → α) : Keeps R (read f : Proc σ α) := by
  intro s s' h
  cases h
  exact refl_of R s

theorem keeps_modify {f : σ → σ} (h : ∀ s, R s (f s)) : Keeps R (modify f) := by
  intro s s' hs
  cases hs
  exact h s

theorem keeps_bind [IsTrans σ R] {p : Proc σ α} {f : α → Proc σ β}
    (hp : Keeps R p) (hf : ∀ a, Keeps R (f a)) : Keeps R (p >>= f) := by
  intro s s' h
  rw [bind_apply] at h
  cases hs : p s with
  | ok a t =>
      rw [hs] at h
      exact trans_of R (hp.ok hs) (hf a t s' h)
  | err e t =>
      rw [hs] at h
      cases h
      exact hp s _ (by rw [hs]; rfl)
  | panic =>
      rw [hs] at h
      cases h

theorem keeps_attempt {p : Proc σ α} (hp : Keeps R p) : Keeps R (attempt p) := by
  intro s s' h
  unfold attempt at h
  cases hs : p s with
  | ok a t =>
      rw [hs] at h
      cases h
      exact hp.ok hs
  | err e t =>
      rw [hs] at h
      cases h
      exact hp s _ (by rw [hs]; rfl)
  | panic =>
      rw [hs] at h
      cases h

theorem keeps_within {τ : Type} {Q : τ → τ → Prop} {get : τ → σ} {set : τ → σ → τ}
    {p : Proc σ α} (hp : Keeps R p) (hset : ∀ t s, R (get t) s → Q t (set t s)) :
    Keeps Q (within get set p) := by
  intro t t' h
  unfold within at h
  cases hs : p (get t) with
  | ok a s =>
      rw [hs] at h
      cases h
      exact hset t s (hp.ok hs)
  | err e s =>
      rw [hs] at h
      cases h
      exact hset t s (hp _ _ (by rw [hs]; rfl))
  | panic =>
      rw [hs] at h
      cases h

end Rules

section Postconditions

variable {σ α β : Type}

/-- Partial correctness: `Q` holds when the call from `s` returns a value, `E`
when it returns an error. -/
def Ensures (p : Proc σ α) (s : σ) (Q : α → σ → Prop) (E : σ → Prop) : Prop :=
  match p s with
  | .ok a s' => Q a s'
  | .err _ s' => E s'
  | .panic => True

variable {s : σ} {Q : α → σ → Prop} {R : β → σ → Prop} {E : σ → Prop}

theorem ensures_pure {a : α} (h : Q a s) : Ensures (pure a) s Q E := h

theorem ensures_bind {p : Proc σ α} {f : α → Proc σ β} (hp : Ensures p s Q E)
    (hf : ∀ a s', Q a s' → Ensures (f a) s' R E) : Ensures (p >>= f) s R E := by
  unfold Ensures at hp ⊢
  rw [bind_apply]
  cases hs : p s with
  | ok a s' =>
      rw [hs] at hp
      exact hf a s' hp
  | err e s' =>
      rw [hs] at hp
      exact hp
  | panic => trivial

theorem Ensures.of_ok {p : Proc σ α} {a : α} {s' : σ} (h : Ensures p s Q E)
    (hp : p s = .ok a s') : Q a s' := by
  unfold Ensures at h
  rw [hp] at h
  exact h

theorem Ensures.imp {p : Proc σ α} {Q' : α → σ → Prop} {E' : σ → Prop} (h : Ensures p s Q E)
    (hQ : ∀ a s', Q a s' → Q' a s') (hE : ∀ s', E s' → E' s') : Ensures p s Q' E' := by
  unfold Ensures at h ⊢
  cases hs : p s with
  | ok a s' =>
      rw [hs] at h
      exact hQ a s' h
  | err e s' =>
      rw [hs] at h
      exact hE s' h
  | panic => trivial

theorem ensures_ok_bind {p : Proc σ α} {f : α → Proc σ β} {a : α} {s' : σ} (hp : p s = .ok a s')
    (hf : Ensures (f a) s' R E) : Ensures (p >>= f) s R E := by
  unfold Ensures at hf ⊢
  rw [bind_ok hp]
  exact hf

theorem ensures_orPanic_bind {x : Option α} {f : α → Proc σ β}
    (hf : ∀ a, x = some a → Ensures (f a) s R E) : Ensures (orPanic x >>= f) s R E := by
  cases x with
  | some a => exact hf a rfl
  | none => trivial

theorem ensures_ofExcept_bind {x : Except String α} {f : α → Proc σ β} (hE : E s)
    (hf : ∀ a, x = .ok a → Ensures (f a) s R E) : Ensures (ofExcept x >>= f) s R E := by
  cases x with
  | ok a => exact hf a rfl
  | error e => exact hE

theorem ensures_of_keeps {R : σ → σ → Prop} {p : Proc σ α} (hp : Keeps R p)
    (hQ : ∀ a s', R s s' → Q a s') (hE : ∀ s', R s s' → E s') : Ensures p s Q E := by
  unfold Ensures
  cases hs : p s with
  | ok a s' => exact hQ a s' (hp.ok hs)
  | err e s' => exact hE s' (hp s s' (by rw [hs]; rfl))
  | panic => trivial

/-- What holds of every state a call ends in. -/
theorem Ensures.state {p : Proc σ α} {s' : σ} (h : Ensures p s (fun _ => E) E)
    (hs : (p s).state? = some s') : E s' := by
  unfold Ensures at h
  cases hp : p s with
  | ok a t =>
      rw [hp] at h hs
      cases hs
      exact h
  | err e t =>
      rw [hp] at h hs
      cases hs
      exact h
  | panic =>
      rw [hp] at hs
      cases hs

end Postconditions

section Agreement

variable {σ τ α β : Type} {P P' : σ → τ → Prop} {Q Q' : α → σ → τ → Prop}
  {E : σ → τ → Prop}

/-- Two calls end alike: with the same value in states with `Q`, with the same error
in states with `E`, or both with a panic. -/
inductive EndAlike (Q : α → σ → τ → Prop) (E : σ → τ → Prop) : Outcome σ α → Outcome τ α → Prop
  | ok {value : α} {s : σ} {t : τ} (h : Q value s t) : EndAlike Q E (.ok value s) (.ok value t)
  | err {error : String} {s : σ} {t : τ} (h : E s t) :
      EndAlike Q E (.err error s) (.err error t)
  | panic : EndAlike Q E .panic .panic

/-- From states with `P`, two procedures over different states end alike. -/
def Agree (P : σ → τ → Prop) (p : Proc σ α) (q : Proc τ α) (Q : α → σ → τ → Prop)
    (E : σ → τ → Prop) : Prop :=
  ∀ s t, P s t → EndAlike Q E (p s) (q t)

variable {p : Proc σ α} {q : Proc τ α}

theorem agree_pure {a : α} (h : ∀ s t, P s t → Q a s t) :
    Agree P (pure a : Proc σ α) (pure a : Proc τ α) Q E :=
  fun s t hP => .ok (h s t hP)

theorem agree_bind {R : β → σ → τ → Prop} {f : α → Proc σ β} {g : α → Proc τ β}
    (h : Agree P p q Q E) (hf : ∀ a, Agree (Q a) (f a) (g a) R E) :
    Agree P (p >>= f) (q >>= g) R E := by
  intro s t hP
  have hends := h s t hP
  rw [bind_apply, bind_apply]
  generalize p s = result at hends ⊢
  generalize q t = result' at hends ⊢
  cases hends with
  | ok hQ => exact hf _ _ _ hQ
  | err hE => exact .err hE
  | panic => exact .panic

theorem agree_orPanic_bind {x : Option β} {f : β → Proc σ α} {g : β → Proc τ α}
    (h : ∀ b, x = some b → Agree P (f b) (g b) Q E) :
    Agree P (orPanic x >>= f) (orPanic x >>= g) Q E := by
  intro s t hP
  cases x with
  | some b => exact h b rfl s t hP
  | none => exact .panic

theorem agree_ofExcept_bind {x : Except String β} {f : β → Proc σ α} {g : β → Proc τ α}
    (hE : ∀ s t, P s t → E s t) (h : ∀ b, x = .ok b → Agree P (f b) (g b) Q E) :
    Agree P (ofExcept x >>= f) (ofExcept x >>= g) Q E := by
  intro s t hP
  cases x with
  | ok b => exact h b rfl s t hP
  | error e => exact .err (hE s t hP)

theorem agree_read {f : σ → α} {g : τ → α} (h : ∀ s t, P s t → f s = g t) :
    Agree P (read f) (read g) (fun _ => P) E := by
  intro s t hP
  rw [read_apply, read_apply, h s t hP]
  exact .ok hP

theorem agree_modify {f : σ → σ} {g : τ → τ} {R : σ → τ → Prop} (h : ∀ s t, P s t → R (f s) (g t)) :
    Agree P (modify f) (modify g) (fun _ => R) E :=
  fun s t hP => .ok (h s t hP)

/-- One procedure agrees with itself. -/
theorem agree_self (p : Proc σ α) : Agree Eq p p (fun _ => Eq) Eq := by
  rintro s t rfl
  generalize p s = result
  cases result with
  | ok value s' => exact .ok rfl
  | err error s' => exact .err rfl
  | panic => exact .panic

theorem agree_assuming {H : Prop} (h : H → Agree P p q Q E) :
    Agree (fun s t => P s t ∧ H) p q Q E :=
  fun s t hP => h hP.2 s t hP.1

theorem agree_attempt (h : Agree P p q (fun _ => P') P') :
    Agree P (attempt p) (attempt q) (fun _ => P') E := by
  intro s t hP
  have hends := h s t hP
  unfold attempt
  generalize p s = result at hends ⊢
  generalize q t = result' at hends ⊢
  cases hends with
  | ok hQ => exact .ok hQ
  | err hE => exact .ok hE
  | panic => exact .panic

theorem agree_within {σ' τ' : Type} {get : σ' → σ} {set : σ' → σ → σ'} {get' : τ' → τ}
    {set' : τ' → τ → τ'} {S : σ' → τ' → Prop} {R : α → σ' → τ' → Prop} {F : σ' → τ' → Prop}
    (h : Agree P p q Q E) (hget : ∀ s t, S s t → P (get s) (get' t))
    (hset : ∀ a s t u v, S s t → Q a u v → R a (set s u) (set' t v))
    (herr : ∀ s t u v, S s t → E u v → F (set s u) (set' t v)) :
    Agree S (within get set p) (within get' set' q) R F := by
  intro s t hS
  have hends := h _ _ (hget s t hS)
  unfold within
  generalize p (get s) = result at hends ⊢
  generalize q (get' t) = result' at hends ⊢
  cases hends with
  | ok hQ => exact .ok (hset _ s t _ _ hS hQ)
  | err hE => exact .err (herr s t _ _ hS hE)
  | panic => exact .panic

theorem EndAlike.result_eq {result : Outcome σ α} {result' : Outcome τ α}
    (h : EndAlike Q E result result') : result.result? = result'.result? := by
  cases h with
  | ok => rfl
  | err => rfl
  | panic => rfl

theorem Agree.imp (h : Agree P p q Q E) (hP : ∀ s t, P' s t → P s t)
    (hQ : ∀ a s t, Q a s t → Q' a s t) : Agree P' p q Q' E := by
  intro s t hP'
  have hends := h s t (hP s t hP')
  generalize p s = result at hends ⊢
  generalize q t = result' at hends ⊢
  cases hends with
  | ok hvalue => exact .ok (hQ _ _ _ hvalue)
  | err hE => exact .err hE
  | panic => exact .panic

end Agreement

section Values

variable {σ α β : Type} {I : σ → Prop}

/-- From a state with `I` the call panics, or it returns `a` in a state with `I`. -/
def Gives (I : σ → Prop) (p : Proc σ α) (a : α) : Prop :=
  ∀ s, I s → p s = .panic ∨ ∃ s', p s = .ok a s' ∧ I s'

theorem gives_pure (a : α) : Gives I (pure a) a := fun s hs => .inr ⟨s, rfl, hs⟩

theorem gives_bind {p : Proc σ α} {f : α → Proc σ β} {a : α} {b : β} (hp : Gives I p a)
    (hf : Gives I (f a) b) : Gives I (p >>= f) b := by
  intro s hs
  obtain hpanic | ⟨s', hok, hs'⟩ := hp s hs
  · exact .inl (bind_panic hpanic)
  · rw [bind_ok hok]
    exact hf s' hs'

theorem gives_within {τ : Type} {J : τ → Prop} {get : τ → σ} {set : τ → σ → τ} {p : Proc σ α}
    {a : α} (hp : Gives I p a) (hget : ∀ t, J t → I (get t))
    (hset : ∀ t s, J t → I s → J (set t s)) : Gives J (within get set p) a := by
  intro t ht
  obtain hpanic | ⟨s, hok, hs⟩ := hp _ (hget t ht)
  · exact .inl (by rw [within, hpanic])
  · exact .inr ⟨_, within_ok hok, hset t s ht hs⟩

end Values

end PostgressRs.Lib.Procedure
