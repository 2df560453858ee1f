import PostgressRs.Lib.Procedure
import PostgressRs.Lib.Transitions

/-!
Programs as trees of the effects they perform.  A machine that answers the
effects turns a program into a procedure; the effects it performs on the way are
its trace, and an automaton can say in which order they come.
-/

namespace PostgressRs.Lib.Effects

open PostgressRs.Lib.Procedure
open PostgressRs.Lib.Transitions

/-- The effects a program may have, and the type of the answer to each. -/
structure Signature where
  Op : Type
  Answer : Op → Type

/-- An effect together with the answer it got. -/
abbrev Event (E : Signature) := Sigma E.Answer

inductive Program (E : Signature) (α : Type) where
  | done (value : α)
  | raise (error : String)
  | panic
  | perform (op : E.Op) (next : E.Answer op → Program E α)

/-- A state machine that answers effects; it may panic. -/
abbrev Machine (E : Signature) (σ : Type) := (op : E.Op) → σ → Option (E.Answer op × σ)

/-- The answer of a fallible call. -/
def answered {τ α : Type} (p : Proc τ α) (s : τ) : Option (Except String α × τ) :=
  match p s with
  | .ok a s' => some (.ok a, s')
  | .err e s' => some (.error e, s')
  | .panic => none

theorem answered_state {τ α : Type} {p : Proc τ α} {s s' : τ} {answer : Except String α}
    (h : answered p s = some (answer, s')) : (p s).state? = some s' := by
  unfold answered at h
  cases hp : p s with
  | ok a t =>
      rw [hp] at h
      cases h
      rfl
  | err e t =>
      rw [hp] at h
      cases h
      rfl
  | panic =>
      rw [hp] at h
      cases h

theorem answered_ok {τ α : Type} {p : Proc τ α} {s s' : τ} {a : α}
    (h : answered p s = some (.ok a, s')) : p s = .ok a s' := by
  unfold answered at h
  cases hp : p s with
  | ok b t =>
      rw [hp] at h
      cases h
      rfl
  | err e t =>
      rw [hp] at h
      cases h
  | panic =>
      rw [hp] at h
      cases h

theorem keeps_answered {τ α : Type} {R : τ → τ → Prop} {p : Proc τ α} (hp : Keeps R p) {s s' : τ}
    {answer : Except String α} (h : answered p s = some (answer, s')) : R s s' :=
  hp s s' (answered_state h)

namespace Program

section

variable {E : Signature} {α β : Type}

def bind : Program E α → (α → Program E β) → Program E β
  | done a, f => f a
  | raise e, _ => raise e
  | panic, _ => panic
  | perform op next, f => perform op fun answer => (next answer).bind f

instance instMonadProgram : Monad (Program E) where
  pure := done
  bind := bind

/-- One effect. -/
def call (op : E.Op) : Program E (E.Answer op) := perform op done

/-- The `?` operator. -/
def ofExcept : Except String α → Program E α
  | .ok a => done a
  | .error e => raise e

def orPanic : Option α → Program E α
  | some a => done a
  | none => panic

theorem bind_eq (p : Program E α) (f : α → Program E β) : p >>= f = p.bind f := rfl

theorem pure_then (a : α) (f : α → Program E β) : (pure a : Program E α) >>= f = f a := rfl

theorem bind_bind {γ : Type} (p : Program E α) (f : α → Program E β) (g : β → Program E γ) :
    p >>= f >>= g = p >>= fun a => f a >>= g := by
  simp only [bind_eq]
  induction p with
  | done a => rfl
  | raise e => rfl
  | panic => rfl
  | perform op next ih =>
      simp only [bind]
      congr
      funext answer
      exact ih answer

end

section Runs

variable {E : Signature} {α β σ : Type} (M : Machine E σ)

/-- The program as a procedure on the machine's state. -/
def run : Program E α → Proc σ α
  | done a => pure a
  | raise e => fail e
  | panic => fun _ => .panic
  | perform op next => fun s =>
      match M op s with
      | some (answer, s') => run (next answer) s'
      | none => .panic

/-- The effects a program performs from a state. -/
def trace : Program E α → σ → List (Transition σ (Event E))
  | perform op next, s =>
      match M op s with
      | some (answer, s') => ⟨s, ⟨op, answer⟩, s'⟩ :: trace (next answer) s'
      | none => []
  | _, _ => []

/-- The state a program stops in, also by a panic. -/
def last : Program E α → σ → σ
  | perform op next, s =>
      match M op s with
      | some (answer, s') => last (next answer) s'
      | none => s
  | _, s => s

theorem run_pure (a : α) : run M (pure a : Program E α) = pure a := rfl

theorem run_bind (p : Program E α) (f : α → Program E β) :
    run M (p >>= f) = run M p >>= fun a => run M (f a) := by
  rw [bind_eq]
  induction p with
  | done a => rfl
  | raise e => rfl
  | panic => rfl
  | perform op next ih =>
      funext s
      rw [bind_apply]
      simp only [bind, run]
      cases M op s with
      | none => rfl
      | some entry =>
          obtain ⟨answer, s'⟩ := entry
          simp only [ih]
          rfl

theorem run_call_bind (op : E.Op) (f : E.Answer op → Program E β) (s : σ) :
    run M (call op >>= f) s =
      match M op s with
      | some (answer, s') => run M (f answer) s'
      | none => .panic := by
  simp only [bind_eq, call, bind, run]

theorem run_ofExcept (x : Except String α) :
    run M (ofExcept x : Program E α) = Procedure.ofExcept x := by
  cases x with
  | ok a => rfl
  | error e => rfl

theorem run_orPanic (x : Option α) :
    run M (orPanic x : Program E α) = Procedure.orPanic x := by
  cases x with
  | some a => rfl
  | none => rfl

theorem last_of_ok {p : Program E α} {s s' : σ} {a : α} (h : run M p s = .ok a s') :
    last M p s = s' := by
  induction p generalizing s with
  | done b =>
      cases h
      rfl
  | raise e => cases h
  | panic => cases h
  | perform op next ih =>
      simp only [run] at h
      simp only [last]
      cases hop : M op s with
      | none =>
          rw [hop] at h
          cases h
      | some entry =>
          obtain ⟨answer, t⟩ := entry
          rw [hop] at h
          exact ih answer h

theorem trace_pure (a : α) (s : σ) : trace M (pure a : Program E α) s = [] := rfl

theorem trace_ofExcept (x : Except String α) (s : σ) :
    trace M (ofExcept x : Program E α) s = [] := by
  cases x with
  | ok a => rfl
  | error e => rfl

theorem trace_orPanic (x : Option α) (s : σ) :
    trace M (orPanic x : Program E α) s = [] := by
  cases x with
  | some a => rfl
  | none => rfl

theorem trace_call {op : E.Op} {s s' : σ} {answer : E.Answer op}
    (h : M op s = some (answer, s')) : trace M (call op) s = [⟨s, ⟨op, answer⟩, s'⟩] := by
  simp only [call, trace, h]

/-- A sequence of two programs performs the effects of the first and, if that one
returns, those of the second. -/
theorem trace_bind_ok {p : Program E α} {f : α → Program E β} {s s' : σ} {a : α}
    (h : run M p s = .ok a s') : trace M (p >>= f) s = trace M p s ++ trace M (f a) s' := by
  rw [bind_eq]
  induction p generalizing s with
  | done b =>
      cases h
      rfl
  | raise e => cases h
  | panic => cases h
  | perform op next ih =>
      simp only [run] at h
      simp only [bind, trace]
      cases hop : M op s with
      | none =>
          rw [hop] at h
          cases h
      | some entry =>
          obtain ⟨answer, t⟩ := entry
          rw [hop] at h
          simp only [ih answer h, List.cons_append]

/-- If the first program does not return, nothing of the second is performed. -/
theorem trace_bind_stop {p : Program E α} {f : α → Program E β} {s : σ}
    (h : ∀ a s', run M p s ≠ .ok a s') : trace M (p >>= f) s = trace M p s := by
  rw [bind_eq]
  induction p generalizing s with
  | done b => exact absurd rfl (h b s)
  | raise e => rfl
  | panic => rfl
  | perform op next ih =>
      simp only [run] at h
      simp only [bind, trace]
      cases hop : M op s with
      | none => rfl
      | some entry =>
          obtain ⟨answer, t⟩ := entry
          rw [hop] at h
          simp only [ih answer h]

/-- What holds of every effect of a sequence of two programs. -/
theorem forall_trace_bind {p : Program E α} {f : α → Program E β} {s : σ}
    {R : Transition σ (Event E) → Prop} (hp : ∀ tr ∈ trace M p s, R tr)
    (hf : ∀ a s', run M p s = .ok a s' → ∀ tr ∈ trace M (f a) s', R tr) :
    ∀ tr ∈ trace M (p >>= f) s, R tr := by
  rw [bind_eq]
  induction p generalizing s with
  | done a => exact hf a s rfl
  | raise e => exact hp
  | panic => exact hp
  | perform op next ih =>
      simp only [trace, run] at hp hf
      simp only [bind, trace]
      cases hop : M op s with
      | none => simp
      | some entry =>
          obtain ⟨answer, s'⟩ := entry
          rw [hop] at hp hf
          intro tr htr
          rcases List.mem_cons.mp htr with rfl | htr
          · exact hp _ List.mem_cons_self
          · exact ih answer (fun tr htr => hp tr (List.mem_cons_of_mem _ htr)) hf tr htr

theorem forall_trace_call {op : E.Op} {s : σ} {R : Transition σ (Event E) → Prop}
    (h : ∀ answer s', M op s = some (answer, s') → R ⟨s, ⟨op, answer⟩, s'⟩) :
    ∀ tr ∈ trace M (call op) s, R tr := by
  cases hop : M op s with
  | none => simp [call, trace, hop]
  | some entry =>
      obtain ⟨answer, s'⟩ := entry
      rw [trace_call M hop]
      intro tr htr
      rw [List.mem_singleton.mp htr]
      exact h answer s' hop

end Runs

section Automata

variable {E : Signature} {α β σ S : Type} {δ : S → Event E → Option S}

/-- Every way through the program is accepted by the automaton; where it returns
a value, `Q` holds of the value and the state reached. -/
def Follows (δ : S → Event E → Option S) (Q : α → S → Prop) : S → Program E α → Prop
  | st, done a => Q a st
  | _, raise _ => True
  | _, panic => True
  | st, perform op next => ∀ answer, ∃ st', δ st ⟨op, answer⟩ = some st' ∧
      Follows δ Q st' (next answer)

theorem follows_imp {Q Q' : α → S → Prop} {st : S} {p : Program E α}
    (h : Follows δ Q st p) (hQ : ∀ a st', Q a st' → Q' a st') : Follows δ Q' st p := by
  induction p generalizing st with
  | done a => exact hQ a st h
  | raise e => trivial
  | panic => trivial
  | perform op next ih =>
      intro answer
      obtain ⟨st', hstep, hrest⟩ := h answer
      exact ⟨st', hstep, ih answer hrest⟩

theorem follows_bind {Q : β → S → Prop} {st : S} {p : Program E α} {f : α → Program E β}
    (h : Follows δ (fun a st' => Follows δ Q st' (f a)) st p) : Follows δ Q st (p >>= f) := by
  rw [bind_eq]
  induction p generalizing st with
  | done a => exact h
  | raise e => trivial
  | panic => trivial
  | perform op next ih =>
      intro answer
      obtain ⟨st', hstep, hrest⟩ := h answer
      exact ⟨st', hstep, ih answer hrest⟩

theorem follows_call {op : E.Op} {Q : E.Answer op → S → Prop} {st : S}
    (h : ∀ answer, ∃ st', δ st ⟨op, answer⟩ = some st' ∧ Q answer st') :
    Follows δ Q st (call op) := h

theorem follows_ofExcept {Q : α → S → Prop} {st : S} {x : Except String α}
    (h : ∀ a, x = .ok a → Q a st) : Follows δ Q st (ofExcept x : Program E α) := by
  cases x with
  | ok a => exact h a rfl
  | error e => trivial

theorem follows_orPanic {Q : α → S → Prop} {st : S} {x : Option α}
    (h : ∀ a, x = some a → Q a st) : Follows δ Q st (orPanic x : Program E α) := by
  cases x with
  | some a => exact h a rfl
  | none => trivial

/-- The program leaves the automaton in the state it found it in. -/
abbrev Steady (δ : S → Event E → Option S) (st : S) (p : Program E α) : Prop :=
  Follows δ (fun _ st' => st' = st) st p

theorem steady_bind {Q : β → S → Prop} {st : S} {p : Program E α} {f : α → Program E β}
    (hp : Steady δ st p) (hf : ∀ a, Follows δ Q st (f a)) : Follows δ Q st (p >>= f) := by
  apply follows_bind
  apply follows_imp hp
  rintro a st' rfl
  exact hf a

theorem steady_pure (st : S) (a : α) : Steady δ st (pure a : Program E α) := rfl

theorem steady_ofExcept (st : S) (x : Except String α) :
    Steady δ st (ofExcept x : Program E α) :=
  follows_ofExcept fun _ _ => rfl

theorem steady_orPanic (st : S) (x : Option α) : Steady δ st (orPanic x : Program E α) :=
  follows_orPanic fun _ _ => rfl

/-- An effect that the automaton does not react to. -/
theorem steady_call {st : S} {op : E.Op} (h : ∀ answer, δ st ⟨op, answer⟩ = some st) :
    Steady δ st (call op) :=
  follows_call fun answer => ⟨st, h answer, rfl⟩

/-- The automaton's state after a trace. -/
def after (δ : S → Event E → Option S) (st : S) (trace : List (Transition σ (Event E))) :
    Option S :=
  trace.foldlM (fun st tr => δ st tr.label) st

theorem after_append (st : S) (before rest : List (Transition σ (Event E))) :
    after δ st (before ++ rest) = (after δ st before).bind fun st' => after δ st' rest :=
  List.foldlM_append

theorem after_cons (st : S) (tr : Transition σ (Event E))
    (rest : List (Transition σ (Event E))) :
    after δ st (tr :: rest) = (δ st tr.label).bind fun st' => after δ st' rest :=
  List.foldlM_cons

theorem Follows.accepts {Q : α → S → Prop} {p : Program E α} {st : S} (h : Follows δ Q st p)
    (M : Machine E σ) (s : σ) : ∃ st', after δ st (trace M p s) = some st' := by
  induction p generalizing st s with
  | done a => exact ⟨st, rfl⟩
  | raise e => exact ⟨st, rfl⟩
  | panic => exact ⟨st, rfl⟩
  | perform op next ih =>
      cases hop : M op s with
      | none =>
          simp only [trace, hop]
          exact ⟨st, rfl⟩
      | some entry =>
          obtain ⟨answer, s'⟩ := entry
          obtain ⟨st', hstep, hrest⟩ := h answer
          simp only [trace, hop, after_cons, hstep, Option.bind_some]
          exact ih answer hrest s'

end Automata

section Operations

variable {E : Signature} {α β σ S : Type} {P : E.Op → Prop}

/-- Whatever the answers, the program performs only effects with `P`. -/
def Performs (P : E.Op → Prop) : Program E α → Prop
  | done _ => True
  | raise _ => True
  | panic => True
  | perform op next => P op ∧ ∀ answer, Performs P (next answer)

theorem performs_pure (a : α) : Performs P (pure a : Program E α) := trivial

theorem performs_call {op : E.Op} (h : P op) : Performs P (call op) := ⟨h, fun _ => trivial⟩

theorem performs_bind {p : Program E α} {f : α → Program E β} (hp : Performs P p)
    (hf : ∀ a, Performs P (f a)) : Performs P (p >>= f) := by
  rw [bind_eq]
  induction p with
  | done a => exact hf a
  | raise e => trivial
  | panic => trivial
  | perform op next ih => exact ⟨hp.1, fun answer => ih answer (hp.2 answer)⟩

theorem Performs.mono {P' : E.Op → Prop} {p : Program E α} (h : Performs P p)
    (hP : ∀ op, P op → P' op) : Performs P' p := by
  induction p with
  | done a => trivial
  | raise e => trivial
  | panic => trivial
  | perform op next ih => exact ⟨hP op h.1, fun answer => ih answer (h.2 answer)⟩

theorem Performs.trace {p : Program E α} (h : Performs P p) (M : Machine E σ) (s : σ) :
    ∀ tr ∈ Program.trace M p s, P tr.label.1 := by
  induction p generalizing s with
  | done a => simp [Program.trace]
  | raise e => simp [Program.trace]
  | panic => simp [Program.trace]
  | perform op next ih =>
      cases hop : M op s with
      | none => simp [Program.trace, hop]
      | some entry =>
          obtain ⟨answer, s'⟩ := entry
          simp only [Program.trace, hop]
          intro tr htr
          rcases List.mem_cons.mp htr with rfl | htr
          · exact h.1
          · exact ih answer (h.2 answer) s' tr htr

/-- What the effects of a program keep, the program keeps. -/
theorem Performs.keeps {R : σ → σ → Prop} [Std.Refl R] [IsTrans σ R] {M : Machine E σ}
    {p : Program E α} (h : Performs P p)
    (hR : ∀ op, P op → ∀ s answer s', M op s = some (answer, s') → R s s') :
    Keeps R (run M p) := by
  induction p with
  | done a => exact keeps_pure a
  | raise e => exact keeps_fail e
  | panic =>
      intro s s' hs
      cases hs
  | perform op next ih =>
      intro s s' hs
      simp only [run] at hs
      cases hop : M op s with
      | none =>
          rw [hop] at hs
          cases hs
      | some entry =>
          obtain ⟨answer, t⟩ := entry
          rw [hop] at hs
          exact trans_of R (hR op h.1 s answer t hop) (ih answer (h.2 answer) t s' hs)

theorem performs_true (p : Program E α) : Performs (fun _ => True) p := by
  induction p with
  | done a => trivial
  | raise e => trivial
  | panic => trivial
  | perform op next ih => exact ⟨trivial, ih⟩

/-- What every effect of the machine keeps, a program keeps. -/
theorem keeps_run {R : σ → σ → Prop} [Std.Refl R] [IsTrans σ R] {M : Machine E σ}
    (h : ∀ op s answer s', M op s = some (answer, s') → R s s') (p : Program E α) :
    Keeps R (run M p) :=
  (performs_true p).keeps fun op _ => h op

/-- A program whose effects the automaton does not react to. -/
theorem Performs.steady {δ : S → Event E → Option S} {st : S} {p : Program E α}
    (h : Performs P p) (hδ : ∀ op, P op → ∀ answer, δ st ⟨op, answer⟩ = some st) :
    Steady δ st p := by
  induction p with
  | done a => rfl
  | raise e => trivial
  | panic => trivial
  | perform op next ih =>
      exact fun answer => ⟨st, hδ op h.1 answer, ih answer (h.2 answer)⟩

end Operations

section Attempts

variable {E : Signature} {α β σ : Type} {M : Machine E σ} {P : σ → E.Op → Prop}

/-- Every effect that the program attempts from a state satisfies `P`, also one
that the machine does not answer. -/
def Attempts (M : Machine E σ) (P : σ → E.Op → Prop) : Program E α → σ → Prop
  | perform op next, s => P s op ∧ ∀ answer s', M op s = some (answer, s') →
      Attempts M P (next answer) s'
  | _, _ => True

theorem attempts_pure (a : α) (s : σ) : Attempts M P (pure a : Program E α) s := trivial

theorem attempts_ofExcept (x : Except String α) (s : σ) :
    Attempts M P (ofExcept x : Program E α) s := by
  cases x with
  | ok a => trivial
  | error e => trivial

theorem attempts_orPanic (x : Option α) (s : σ) :
    Attempts M P (orPanic x : Program E α) s := by
  cases x with
  | some a => trivial
  | none => trivial

theorem attempts_call {op : E.Op} {s : σ} (h : P s op) : Attempts M P (call op) s :=
  ⟨h, fun _ _ _ => trivial⟩

theorem attempts_bind {p : Program E α} {f : α → Program E β} {s : σ} (hp : Attempts M P p s)
    (hf : ∀ a s', run M p s = .ok a s' → Attempts M P (f a) s') : Attempts M P (p >>= f) s := by
  rw [bind_eq]
  induction p generalizing s with
  | done a => exact hf a s rfl
  | raise e => trivial
  | panic => trivial
  | perform op next ih =>
      refine ⟨hp.1, ?_⟩
      intro answer s' hop
      refine ih answer (hp.2 answer s' hop) ?_
      intro a t hrun
      refine hf a t ?_
      simp only [run, hop]
      exact hrun

theorem Attempts.bind_inv {p : Program E α} {f : α → Program E β} {s s' : σ} {a : α}
    (h : Attempts M P (p >>= f) s) (hp : run M p s = .ok a s') : Attempts M P (f a) s' := by
  rw [bind_eq] at h
  induction p generalizing s with
  | done b =>
      cases hp
      exact h
  | raise e => cases hp
  | panic => cases hp
  | perform op next ih =>
      simp only [run] at hp
      cases hop : M op s with
      | none =>
          rw [hop] at hp
          cases hp
      | some entry =>
          obtain ⟨answer, t⟩ := entry
          rw [hop] at hp
          exact ih answer (h.2 answer t hop) hp

theorem Attempts.left {p : Program E α} {f : α → Program E β} {s : σ}
    (h : Attempts M P (p >>= f) s) : Attempts M P p s := by
  rw [bind_eq] at h
  induction p generalizing s with
  | done a => trivial
  | raise e => trivial
  | panic => trivial
  | perform op next ih => exact ⟨h.1, fun answer s' hop => ih answer (h.2 answer s' hop)⟩

theorem Attempts.ofExcept_inv {x : Except String α} {f : α → Program E β} {s : σ} {a : α}
    (h : Attempts M P (ofExcept x >>= f) s) (hx : x = .ok a) : Attempts M P (f a) s := by
  subst hx
  exact h

theorem Attempts.orPanic_inv {x : Option α} {f : α → Program E β} {s : σ} {a : α}
    (h : Attempts M P (orPanic x >>= f) s) (hx : x = some a) : Attempts M P (f a) s := by
  subst hx
  exact h

/-- What the attempted effects keep holds wherever the program attempts one and
where it stops. -/
theorem Attempts.invariant {Inv : σ → Prop}
    (hstep : ∀ s op answer s', Inv s → P s op → M op s = some (answer, s') → Inv s')
    {p : Program E α} {s : σ} (h : Attempts M P p s) (hs : Inv s) :
    Attempts M (fun s op => Inv s ∧ P s op) p s ∧ Inv (last M p s) := by
  induction p generalizing s with
  | done a => exact ⟨trivial, hs⟩
  | raise e => exact ⟨trivial, hs⟩
  | panic => exact ⟨trivial, hs⟩
  | perform op next ih =>
      refine ⟨⟨⟨hs, h.1⟩, ?_⟩, ?_⟩
      · intro answer s' hop
        exact (ih answer (h.2 answer s' hop) (hstep s op answer s' hs h.1 hop)).1
      · simp only [last]
        cases hop : M op s with
        | none => exact hs
        | some entry =>
            obtain ⟨answer, s'⟩ := entry
            exact (ih answer (h.2 answer s' hop) (hstep s op answer s' hs h.1 hop)).2

theorem Attempts.mono {P' : σ → E.Op → Prop} (hP : ∀ s op, P s op → P' s op)
    {p : Program E α} {s : σ} (h : Attempts M P p s) : Attempts M P' p s := by
  induction p generalizing s with
  | done a => trivial
  | raise e => trivial
  | panic => trivial
  | perform op next ih =>
      exact ⟨hP s op h.1, fun answer s' hop => ih answer (h.2 answer s' hop)⟩

end Attempts

section Answers

variable {E : Signature} {α β σ : Type}

/-- Some answers make the program return the value. -/
inductive MayReturn : Program E α → α → Prop
  | done (a : α) : MayReturn (done a) a
  | perform {op : E.Op} {next : E.Answer op → Program E α} (answer : E.Answer op) {a : α} :
      MayReturn (next answer) a → MayReturn (perform op next) a

theorem mayReturn_pure {a b : α} : MayReturn (pure a : Program E α) b ↔ a = b := by
  constructor
  · intro h
    cases h
    rfl
  · rintro rfl
    exact MayReturn.done a

theorem mayReturn_bind {p : Program E α} {f : α → Program E β} {b : β} :
    MayReturn (p >>= f) b ↔ ∃ a, MayReturn p a ∧ MayReturn (f a) b := by
  rw [bind_eq]
  constructor
  · intro h
    induction p with
    | done a => exact ⟨a, .done a, h⟩
    | raise e => cases h
    | panic => cases h
    | perform op next ih =>
        cases h with
        | perform answer hnext =>
            obtain ⟨a, hp, hf⟩ := ih answer hnext
            exact ⟨a, .perform answer hp, hf⟩
  · rintro ⟨a, hp, hf⟩
    induction hp with
    | done a => exact hf
    | perform answer _ ih => exact .perform answer (ih hf)

end Answers

end Program

end PostgressRs.Lib.Effects
