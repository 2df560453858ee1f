import Mathlib.Data.List.Basic
import Mathlib.Tactic.Common

/-!
Recursive-descent parsers over a list of tokens.  A parser is regular when it takes a
prefix of the tokens, does so whatever follows the prefix once the parser has not gone
on, and finishes on short inputs.
-/

namespace PostgressRs.Lib.TokenParser

inductive Outcome (τ ε α : Type) where
  | ok (value : α) (rest : List τ)
  | error (e : ε)
  | unfinished
deriving DecidableEq

def Parser (τ ε α : Type) : Type := List τ → Outcome τ ε α

section Combinators

variable {τ ε α β σ : Type}

instance instMonadParser : Monad (Parser τ ε) where
  pure a := fun ts => .ok a ts
  bind p f := fun ts =>
    match p ts with
    | .ok a rest => f a rest
    | .error e => .error e
    | .unfinished => .unfinished

theorem pure_apply (a : α) (ts : List τ) : (pure a : Parser τ ε α) ts = .ok a ts := rfl

theorem bind_apply (p : Parser τ ε α) (f : α → Parser τ ε β) (ts : List τ) :
    (p >>= f) ts =
      match p ts with
      | .ok a rest => f a rest
      | .error e => .error e
      | .unfinished => .unfinished := rfl

theorem bind_ok {p : Parser τ ε α} {f : α → Parser τ ε β} {ts rest : List τ} {a : α}
    (h : p ts = .ok a rest) : (p >>= f) ts = f a rest := by
  rw [bind_apply, h]

theorem bind_error {p : Parser τ ε α} {f : α → Parser τ ε β} {ts : List τ} {e : ε}
    (h : p ts = .error e) : (p >>= f) ts = .error e := by
  rw [bind_apply, h]

theorem bind_eq_ok {p : Parser τ ε α} {f : α → Parser τ ε β} {ts rest : List τ} {b : β} :
    (p >>= f) ts = .ok b rest ↔ ∃ a mid, p ts = .ok a mid ∧ f a mid = .ok b rest := by
  rw [bind_apply]
  cases p ts with
  | ok a mid => simp
  | error e => simp
  | unfinished => simp

def fail (e : ε) : Parser τ ε α := fun _ => .error e

/-- An error about the next token; there is an end token behind the last. -/
def failAt (eof : τ) (e : τ → ε) : Parser τ ε α := fun ts => .error (e (ts.headD eof))

/-- Takes the next token if it is accepted, with what it is accepted as. -/
def onSome {γ : Type} (accept : τ → Option γ) (f : γ → Parser τ ε α) (q : Parser τ ε α) :
    Parser τ ε α
  | [] => q []
  | t :: rest =>
      match accept t with
      | some c => f c rest
      | none => q (t :: rest)

/-- Takes the next token if it is accepted. -/
def onToken (accept : τ → Bool) (p q : Parser τ ε α) : Parser τ ε α :=
  onSome (fun t => if accept t then some () else none) (fun _ => p) q

/-- Goes by the next token, which is not taken. -/
def ifNext (accept : τ → Bool) (p q : Parser τ ε α) : Parser τ ε α
  | [] => q []
  | t :: rest => if accept t then p (t :: rest) else q (t :: rest)

/-- Ends before an accepted token. -/
def endAt (eof : τ) (accept : τ → Bool) (a : α) (e : τ → ε) : Parser τ ε α := fun ts =>
  if accept (ts.headD eof) then .ok a ts else .error (e (ts.headD eof))

def begins : List (τ → Bool) → List τ → Bool
  | [], _ => true
  | _ :: _, [] => false
  | accept :: accepts, t :: ts => accept t && begins accepts ts

/-- Takes the next tokens if all of them are accepted. -/
def onTokens (accepts : List (τ → Bool)) (p q : Parser τ ε α) : Parser τ ε α := fun ts =>
  if begins accepts ts then p (ts.drop accepts.length) else q ts

def next (eof : τ) : Parser τ ε τ
  | [] => .ok eof []
  | t :: rest => .ok t rest

def iterateFrom (body : σ → Parser τ ε (σ ⊕ β)) : Nat → σ → Parser τ ε β
  | 0, _ => fun _ => .unfinished
  | fuel + 1, s => do
      match ← body s with
      | .inl s => iterateFrom body fuel s
      | .inr b => pure b

/-- A loop: each round goes on with a new state or ends with a result.  A round that
goes on takes a token. -/
def iterate (body : σ → Parser τ ε (σ ⊕ β)) (s : σ) : Parser τ ε β := fun ts =>
  iterateFrom body (ts.length + 1) s ts

/-- Goes on behind an accepted token. -/
def moreItems (accept : τ → Bool) (p : Parser τ ε α) (acc : List α) :
    Parser τ ε (List α ⊕ List α) :=
  onToken accept (do let a ← p; pure (.inl (acc ++ [a]))) (pure (.inr acc))

/-- One or more, with accepted tokens between them. -/
def sepBy (accept : τ → Bool) (p : Parser τ ε α) : Parser τ ε (List α) := do
  let a ← p
  iterate (moreItems accept p) [a]

end Combinators

section Regularity

variable {τ ε α β σ : Type}

/-- The input ends earlier. -/
def Truncates (eof : τ) (r r' : List τ) : Prop :=
  ∃ v w, r = v ++ w ∧ w ≠ [] ∧ r' = v ++ [eof]

/-- A parser that finishes on less than `n` tokens and takes at least `k` if it accepts.
It does not see what is behind the next token when it stops.  The second parser is the
same one with less fuel. -/
structure Regular (eof : τ) (n k : Nat) (p p' : Parser τ ε α) : Prop where
  finishes : ∀ ts, ts.length < n → p ts ≠ .unfinished
  takes : ∀ ts a rest, p ts = .ok a rest → ∃ u, ts = u ++ rest ∧ k ≤ u.length
  stable : ∀ u r r' a, p (u ++ r) = .ok a r → Truncates eof r r' → p (u ++ r') = .ok a r'
  agrees : ∀ ts, p' ts = p ts ∨ p' ts = .unfinished

/-- `k ≤ m`, as far as instances show it. -/
class AtMost (k m : Nat) : Prop where
  le : k ≤ m

instance atMost_zero (m : Nat) : AtMost 0 m := ⟨Nat.zero_le m⟩

instance atMost_self (m : Nat) : AtMost m m := ⟨Nat.le_refl m⟩

variable {eof : τ} {n k : Nat}

theorem Truncates.append {eof : τ} {r r' : List τ} (h : Truncates eof r r') (u : List τ) :
    Truncates eof (u ++ r) (u ++ r') := by
  obtain ⟨v, w, rfl, hw, rfl⟩ := h
  exact ⟨u ++ v, w, (List.append_assoc u v w).symm, hw, (List.append_assoc u v _).symm⟩

theorem Truncates.length_le {eof : τ} {r r' : List τ} (h : Truncates eof r r') :
    r'.length ≤ r.length := by
  obtain ⟨v, w, rfl, hw, rfl⟩ := h
  have hpos := List.length_pos_iff.mpr hw
  rw [List.length_append, List.length_append, List.length_singleton]
  omega

theorem Regular.mono {p p' : Parser τ ε α} {n' k' : Nat} (h : Regular eof n k p p') (hn : n' ≤ n)
    (hk : k' ≤ k) : Regular eof n' k' p p' where
  finishes ts hts := h.finishes ts (by omega)
  takes ts a rest hp := by
    obtain ⟨u, hu, hle⟩ := h.takes ts a rest hp
    exact ⟨u, hu, by omega⟩
  stable := h.stable
  agrees := h.agrees

theorem Regular.weaken {p p' : Parser τ ε α} (h : Regular eof n k p p') :
    Regular eof n 0 p p' :=
  h.mono (Nat.le_refl n) (Nat.zero_le k)

theorem Regular.atZero {p p' : Parser τ ε α} (h : Regular eof n k p p') :
    Regular eof 0 k p p' :=
  h.mono (Nat.zero_le n) (Nat.le_refl k)

/-- No fuel at all. -/
theorem Regular.starved {p p' : Parser τ ε α} (h : Regular eof n k p p') :
    Regular eof n k p fun _ => .unfinished where
  finishes := h.finishes
  takes := h.takes
  stable := h.stable
  agrees _ := .inr rfl

theorem regular_unfinished : Regular eof 0 k (fun _ => .unfinished : Parser τ ε α)
    fun _ => .unfinished where
  finishes ts h := by omega
  takes ts a rest h := by cases h
  stable u r r' a h _ := by cases h
  agrees _ := .inl rfl

theorem regular_pure (a : α) : Regular eof n 0 (pure a : Parser τ ε α) (pure a) where
  finishes ts _ := by
    intro h
    cases h
  takes ts a rest h := by
    cases h
    exact ⟨[], rfl, Nat.zero_le _⟩
  stable u r r' b h _ := by
    rw [pure_apply] at h ⊢
    injection h with ha hr
    have hu : u = [] := by simpa using hr
    rw [hu, ha, List.nil_append]
  agrees ts := .inl rfl

/-- Parsers that never accept. -/
theorem regular_error {p : Parser τ ε α} {e : List τ → ε} (hp : ∀ ts, p ts = .error (e ts)) :
    Regular eof n k p p where
  finishes ts _ := by
    rw [hp]
    simp
  takes ts a rest h := by
    rw [hp] at h
    cases h
  stable u r r' a h _ := by
    rw [hp] at h
    cases h
  agrees ts := .inl rfl

theorem Regular.seq {p p' : Parser τ ε α} {f f' : α → Parser τ ε β} {k' : Nat}
    (hp : Regular eof n k p p') (hf : ∀ a, Regular eof (n - k) k' (f a) (f' a)) :
    Regular eof n (k + k') (p >>= f) (p' >>= f') where
  finishes ts hts := by
    rw [bind_apply]
    cases hpts : p ts with
    | ok a rest =>
        obtain ⟨u, rfl, hu⟩ := hp.takes ts a rest hpts
        rw [List.length_append] at hts
        exact (hf a).finishes rest (by omega)
    | error e => simp
    | unfinished => exact absurd hpts (hp.finishes ts hts)
  takes ts b rest h := by
    obtain ⟨a, mid, hpts, hfmid⟩ := bind_eq_ok.mp h
    obtain ⟨u, rfl, hu⟩ := hp.takes ts a mid hpts
    obtain ⟨v, rfl, hv⟩ := (hf a).takes mid b rest hfmid
    refine ⟨u ++ v, (List.append_assoc u v rest).symm, ?_⟩
    rw [List.length_append]
    omega
  stable u r r' b h hr := by
    obtain ⟨a, mid, hpts, hfmid⟩ := bind_eq_ok.mp h
    obtain ⟨v, hv, -⟩ := hp.takes _ a mid hpts
    obtain ⟨w, rfl, -⟩ := (hf a).takes mid b r hfmid
    rw [← List.append_assoc] at hv
    obtain rfl := List.append_cancel_right hv
    rw [List.append_assoc] at hpts ⊢
    rw [bind_ok (hp.stable v (w ++ r) (w ++ r') a hpts (hr.append w))]
    exact (hf a).stable w r r' b hfmid hr
  agrees ts := by
    rw [bind_apply, bind_apply]
    rcases hp.agrees ts with h | h
    · rw [h]
      cases p ts with
      | ok a rest => exact (hf a).agrees rest
      | error e => exact .inl rfl
      | unfinished => exact .inl rfl
    · rw [h]
      exact .inr rfl

theorem Regular.bind {p p' : Parser τ ε α} {f f' : α → Parser τ ε β} {m : Nat}
    (hp : Regular eof n m p p') (hf : ∀ a, Regular eof n 0 (f a) (f' a))
    [AtMost k m] : Regular eof n k (p >>= f) (p' >>= f') :=
  (hp.seq fun a => (hf a).mono (Nat.sub_le n m) (Nat.le_refl 0)).mono (Nat.le_refl n) AtMost.le

theorem Regular.map {p p' : Parser τ ε α} (hp : Regular eof n k p p') (f : α → β) :
    Regular eof n k (p >>= fun a => pure (f a)) (p' >>= fun a => pure (f a)) :=
  hp.bind fun _ => regular_pure _

/-- The tokens are taken by what follows. -/
theorem Regular.after {p p' : Parser τ ε α} {f f' : α → Parser τ ε β}
    (hp : Regular eof n 0 p p') (hf : ∀ a, Regular eof n k (f a) (f' a)) :
    Regular eof n k (p >>= f) (p' >>= f') :=
  (hp.seq hf).mono (Nat.le_refl n) (Nat.le_add_left k 0)

/-- What follows has one token less to finish on. -/
theorem Regular.bindSucc {p p' : Parser τ ε α} {f f' : α → Parser τ ε β}
    (hp : Regular eof (n + 1) 1 p p') (hf : ∀ a, Regular eof n 0 (f a) (f' a)) :
    Regular eof (n + 1) 1 (p >>= f) (p' >>= f') :=
  hp.seq hf

/-- A truncated input begins with the same token or with the end. -/
theorem Truncates.head {eof t : τ} {r r' : List τ} (h : Truncates eof (t :: r) r') :
    ∃ rest, r' = eof :: rest ∨ r' = t :: rest := by
  obtain ⟨v, w, hr, -, rfl⟩ := h
  cases v with
  | nil => exact ⟨[], .inl rfl⟩
  | cons t' v =>
      cases hr
      exact ⟨v ++ [eof], .inr rfl⟩

theorem not_truncates_nil {eof : τ} {r' : List τ} : ¬Truncates eof [] r' := by
  rintro ⟨v, w, hr, hw, -⟩
  exact hw (List.append_eq_nil_iff.mp hr.symm).2

theorem onSome_cons_pos {γ : Type} {accept : τ → Option γ} {f : γ → Parser τ ε α}
    {q : Parser τ ε α} {t : τ} {rest : List τ} {c : γ} (h : accept t = some c) :
    onSome accept f q (t :: rest) = f c rest := by
  simp only [onSome, h]

theorem onSome_cons_neg {γ : Type} {accept : τ → Option γ} {f : γ → Parser τ ε α}
    {q : Parser τ ε α} {t : τ} {rest : List τ} (h : accept t = none) :
    onSome accept f q (t :: rest) = q (t :: rest) := by
  simp only [onSome, h]

theorem Regular.not_same {p p' : Parser τ ε α} (h : Regular eof n k p p') {t : τ} {rest : List τ}
    {a : α} : p rest ≠ .ok a (t :: rest) := by
  intro hp
  obtain ⟨u, hu, -⟩ := h.takes rest a _ hp
  have hlen := congrArg List.length hu
  rw [List.length_append, List.length_cons] at hlen
  omega

theorem Regular.select {γ : Type} {accept : τ → Option γ} {f f' : γ → Parser τ ε α}
    {q q' : Parser τ ε α} (heof : accept eof = none)
    (hf : ∀ c, Regular eof (n - 1) (k - 1) (f c) (f' c)) (hq : Regular eof n k q q') :
    Regular eof n k (TokenParser.onSome accept f q) (TokenParser.onSome accept f' q') where
  finishes ts hts := by
    cases ts with
    | nil => exact hq.finishes [] hts
    | cons t rest =>
        cases ht : accept t with
        | some c =>
            rw [onSome_cons_pos ht]
            rw [List.length_cons] at hts
            exact (hf c).finishes rest (by omega)
        | none =>
            rw [onSome_cons_neg ht]
            exact hq.finishes _ hts
  takes ts a rest h := by
    cases ts with
    | nil => exact hq.takes [] a rest h
    | cons t ts =>
        cases ht : accept t with
        | some c =>
            rw [onSome_cons_pos ht] at h
            obtain ⟨u, rfl, hu⟩ := (hf c).takes ts a rest h
            exact ⟨t :: u, rfl, by rw [List.length_cons]; omega⟩
        | none =>
            rw [onSome_cons_neg ht] at h
            exact hq.takes _ a rest h
  stable u r r' a h hr := by
    cases u with
    | cons t u =>
        rw [List.cons_append] at h ⊢
        cases ht : accept t with
        | some c =>
            rw [onSome_cons_pos ht] at h ⊢
            exact (hf c).stable u r r' a h hr
        | none =>
            rw [onSome_cons_neg ht] at h ⊢
            exact hq.stable (t :: u) r r' a h hr
    | nil =>
        cases r with
        | nil => exact absurd hr not_truncates_nil
        | cons t r =>
            rw [List.nil_append] at h
            cases ht : accept t with
            | some c =>
                rw [onSome_cons_pos ht] at h
                exact absurd h (hf c).not_same
            | none =>
                rw [onSome_cons_neg ht] at h
                have hstable := hq.stable [] (t :: r) r' a h hr
                rw [List.nil_append] at hstable ⊢
                obtain ⟨rest, rfl | rfl⟩ := hr.head
                · rw [onSome_cons_neg heof, hstable]
                · rw [onSome_cons_neg ht, hstable]
  agrees ts := by
    cases ts with
    | nil => exact hq.agrees []
    | cons t rest =>
        cases ht : accept t with
        | some c =>
            rw [onSome_cons_pos ht, onSome_cons_pos ht]
            exact (hf c).agrees rest
        | none =>
            rw [onSome_cons_neg ht, onSome_cons_neg ht]
            exact hq.agrees _

theorem Regular.onSome {γ : Type} {accept : τ → Option γ} {f f' : γ → Parser τ ε α}
    {q q' : Parser τ ε α} (heof : accept eof = none) (hf : ∀ c, Regular eof n 0 (f c) (f' c))
    (hq : Regular eof n k q q') [hk : AtMost k 1] :
    Regular eof n k (TokenParser.onSome accept f q) (TokenParser.onSome accept f' q') :=
  Regular.select heof (fun c => (hf c).mono (Nat.sub_le n 1) (Nat.sub_le_of_le_add hk.le)) hq

theorem Regular.onSomeSucc {γ : Type} {accept : τ → Option γ} {f f' : γ → Parser τ ε α}
    {q q' : Parser τ ε α} (heof : accept eof = none) (hf : ∀ c, Regular eof n 0 (f c) (f' c))
    (hq : Regular eof (n + 1) 1 q q') :
    Regular eof (n + 1) 1 (TokenParser.onSome accept f q) (TokenParser.onSome accept f' q') :=
  Regular.select heof hf hq

theorem Regular.onToken {accept : τ → Bool} {p p' q q' : Parser τ ε α}
    (heof : accept eof = false) (hp : Regular eof n 0 p p') (hq : Regular eof n k q q')
    [AtMost k 1] :
    Regular eof n k (TokenParser.onToken accept p q) (TokenParser.onToken accept p' q') :=
  Regular.onSome (by rw [heof]; rfl) (fun _ => hp) hq

theorem Regular.onTokenSucc {accept : τ → Bool} {p p' q q' : Parser τ ε α}
    (heof : accept eof = false) (hp : Regular eof n 0 p p') (hq : Regular eof (n + 1) 1 q q') :
    Regular eof (n + 1) 1 (TokenParser.onToken accept p q) (TokenParser.onToken accept p' q') :=
  Regular.onSomeSucc (by rw [heof]; rfl) (fun _ => hp) hq

theorem ifNext_cons {accept : τ → Bool} {p q : Parser τ ε α} (t : τ) (rest : List τ) :
    ifNext accept p q (t :: rest) = if accept t then p (t :: rest) else q (t :: rest) := rfl

/-- A choice by a token that the chosen parser takes. -/
theorem Regular.ifNext {accept : τ → Bool} {p p' q q' : Parser τ ε α}
    (heof : accept eof = false) (hp : Regular eof n 1 p p') (hq : Regular eof n 1 q q') :
    Regular eof n 1 (TokenParser.ifNext accept p q) (TokenParser.ifNext accept p' q') where
  finishes ts hts := by
    cases ts with
    | nil => exact hq.finishes [] hts
    | cons t rest =>
        rw [ifNext_cons]
        split
        · exact hp.finishes _ hts
        · exact hq.finishes _ hts
  takes ts a rest h := by
    cases ts with
    | nil => exact hq.takes [] a rest h
    | cons t ts =>
        rw [ifNext_cons] at h
        split at h
        · exact hp.takes _ a rest h
        · exact hq.takes _ a rest h
  stable u r r' a h hr := by
    cases u with
    | cons t u =>
        rw [List.cons_append, ifNext_cons] at h ⊢
        split at h
        · rename_i ht
          rw [if_pos ht]
          exact hp.stable (t :: u) r r' a h hr
        · rename_i ht
          rw [if_neg ht]
          exact hq.stable (t :: u) r r' a h hr
    | nil =>
        cases r with
        | nil => exact absurd hr not_truncates_nil
        | cons t r =>
            rw [List.nil_append, ifNext_cons] at h
            split at h
            · obtain ⟨u, hu, hpos⟩ := hp.takes _ a _ h
              have hlen := congrArg List.length hu
              rw [List.length_append] at hlen
              omega
            · rename_i ht
              have hstable := hq.stable [] (t :: r) r' a h hr
              rw [List.nil_append] at hstable ⊢
              obtain ⟨rest, rfl | rfl⟩ := hr.head
              · rw [ifNext_cons, if_neg (by rw [heof]; exact Bool.false_ne_true), hstable]
              · rw [ifNext_cons, if_neg ht, hstable]
  agrees ts := by
    cases ts with
    | nil => exact hq.agrees []
    | cons t rest =>
        rw [ifNext_cons, ifNext_cons]
        split
        · exact hp.agrees _
        · exact hq.agrees _

theorem regular_endAt {accept : τ → Bool} {a : α} {e : τ → ε} (heof : accept eof = true) :
    Regular eof n 0 (endAt eof accept a e) (endAt eof accept a e) where
  finishes ts _ := by
    rw [endAt]
    split
    · simp
    · simp
  takes ts b rest h := by
    rw [endAt] at h
    split at h
    · cases h
      exact ⟨[], rfl, Nat.zero_le _⟩
    · cases h
  stable u r r' b h hr := by
    rw [endAt] at h
    split at h
    · rename_i hhead
      injection h with hb hu
      have hnil : u = [] := by simpa using hu
      subst hnil
      rw [List.nil_append] at hhead ⊢
      rw [endAt, hb]
      cases r with
      | nil => exact absurd hr not_truncates_nil
      | cons t r =>
          rw [List.headD_cons] at hhead
          obtain ⟨rest, rfl | rfl⟩ := hr.head
          · rw [List.headD_cons, if_pos heof]
          · rw [List.headD_cons, if_pos hhead]
    · cases h
  agrees ts := .inl rfl

/-- Whether accepted tokens come next does not depend on what is behind them. -/
theorem begins_append {accepts : List (τ → Bool)} {u : List τ} (h : accepts.length ≤ u.length)
    (r : List τ) : begins accepts (u ++ r) = begins accepts u := by
  induction accepts generalizing u with
  | nil => rfl
  | cons accept accepts ih =>
      cases u with
      | nil => simp at h
      | cons t u =>
          rw [List.cons_append, begins, begins, ih (by simpa using h)]

theorem begins_length {accepts : List (τ → Bool)} {ts : List τ} (h : begins accepts ts = true) :
    accepts.length ≤ ts.length := by
  induction accepts generalizing ts with
  | nil => exact Nat.zero_le _
  | cons accept accepts ih =>
      cases ts with
      | nil => cases h
      | cons t ts =>
          rw [begins, Bool.and_eq_true] at h
          simpa using ih h.2

/-- The end of a truncated input is not accepted. -/
theorem begins_truncated {eof : τ} {accepts : List (τ → Bool)}
    (heof : ∀ accept ∈ accepts, accept eof = false) {v w : List τ}
    (h : begins accepts (v ++ [eof]) = true) : begins accepts (v ++ w) = true := by
  induction accepts generalizing v with
  | nil => rfl
  | cons accept accepts ih =>
      cases v with
      | nil =>
          rw [List.nil_append, begins, heof accept List.mem_cons_self] at h
          cases h
      | cons t v =>
          rw [List.cons_append, begins, Bool.and_eq_true] at h ⊢
          exact ⟨h.1, ih (fun accept' h' => heof accept' (List.mem_cons_of_mem _ h')) h.2⟩

theorem Regular.onTokens {accepts : List (τ → Bool)} {p p' q q' : Parser τ ε α}
    (hp : Regular eof n 0 p p') (hq : Regular eof n k q q') (hk : k ≤ accepts.length)
    (heof : ∀ accept ∈ accepts, accept eof = false) :
    Regular eof n k (TokenParser.onTokens accepts p q) (TokenParser.onTokens accepts p' q') where
  finishes ts hts := by
    rw [TokenParser.onTokens]
    split
    · rename_i hbegins
      have hle := begins_length hbegins
      exact hp.finishes _ (by rw [List.length_drop]; omega)
    · exact hq.finishes ts hts
  takes ts a rest h := by
    rw [TokenParser.onTokens] at h
    split at h
    · rename_i hbegins
      have hle := begins_length hbegins
      obtain ⟨u, hu, hk⟩ := hp.takes _ a rest h
      refine ⟨ts.take accepts.length ++ u, ?_, ?_⟩
      · rw [List.append_assoc, ← hu, List.take_append_drop]
      · rw [List.length_append, List.length_take]
        omega
    · exact hq.takes ts a rest h
  stable u r r' a h hr := by
    rw [TokenParser.onTokens] at h ⊢
    split at h
    · rename_i hbegins
      have hle := begins_length hbegins
      obtain ⟨v, hv, -⟩ := hp.takes _ a r h
      -- All accepted tokens are in the part that is taken.
      have hlen : accepts.length ≤ u.length := by
        have hlength := congrArg List.length hv
        rw [List.length_drop, List.length_append, List.length_append] at hlength
        rw [List.length_append] at hle
        omega
      rw [begins_append hlen] at hbegins
      rw [begins_append hlen, if_pos hbegins, List.drop_append_of_le_length hlen]
      rw [List.drop_append_of_le_length hlen] at h
      exact hp.stable _ r r' a h hr
    · rename_i hbegins
      rw [if_neg, hq.stable u r r' a h hr]
      intro hbegins'
      apply hbegins
      obtain ⟨v, w, rfl, -, rfl⟩ := hr
      rw [← List.append_assoc] at hbegins' ⊢
      exact begins_truncated heof hbegins'
  agrees ts := by
    rw [TokenParser.onTokens, TokenParser.onTokens]
    split
    · exact hp.agrees _
    · exact hq.agrees ts

theorem regular_next : Regular eof n 0 (next eof : Parser τ ε τ) (next eof) where
  finishes ts _ := by
    cases ts with
    | nil => simp [next]
    | cons t rest => simp [next]
  takes ts a rest h := by
    cases ts with
    | nil =>
        cases h
        exact ⟨[], rfl, Nat.zero_le _⟩
    | cons t ts =>
        cases h
        exact ⟨[_], rfl, Nat.zero_le _⟩
  stable u r r' a h hr := by
    cases u with
    | nil =>
        cases r with
        | nil => exact absurd hr not_truncates_nil
        | cons t r =>
            have hlen := congrArg (fun outcome => match outcome with
              | .ok _ rest => List.length rest
              | _ => 0) h
            simp [next] at hlen
    | cons t u =>
        rw [List.cons_append, next] at h
        injection h with ht hu
        have hnil : u = [] := by simpa using hu
        rw [hnil, ht]
        rfl
  agrees ts := .inl rfl

end Regularity

section Loops

variable {τ ε α β σ : Type} {eof : τ} {n : Nat}

/-- A round of a loop: it takes a token if the loop goes on. -/
structure Advances (eof : τ) (n : Nat) (p p' : Parser τ ε (σ ⊕ β)) : Prop where
  regular : Regular eof n 0 p p'
  goes : ∀ ts s rest, p ts = .ok (.inl s) rest → rest.length < ts.length

theorem advances_done (b : β) :
    Advances eof n (pure (.inr b) : Parser τ ε (σ ⊕ β)) (pure (.inr b)) where
  regular := regular_pure _
  goes ts s rest h := by cases h

theorem advances_endAt {accept : τ → Bool} {b : β} {e : τ → ε} (heof : accept eof = true) :
    Advances eof n (endAt eof accept (.inr b) e : Parser τ ε (σ ⊕ β))
      (endAt eof accept (.inr b) e) where
  regular := regular_endAt heof
  goes ts s rest h := by
    rw [endAt] at h
    split at h
    · cases h
    · cases h

theorem Regular.advances {p p' : Parser τ ε (σ ⊕ β)} (h : Regular eof n 1 p p') :
    Advances eof n p p' where
  regular := h.mono (Nat.le_refl _) (Nat.zero_le _)
  goes ts s rest hp := by
    obtain ⟨u, rfl, hu⟩ := h.takes ts _ rest hp
    rw [List.length_append]
    omega

theorem Advances.onSome {γ : Type} {accept : τ → Option γ} {f f' : γ → Parser τ ε (σ ⊕ β)}
    {q q' : Parser τ ε (σ ⊕ β)} (heof : accept eof = none)
    (hf : ∀ c, Regular eof n 0 (f c) (f' c)) (hq : Advances eof n q q') :
    Advances eof n (TokenParser.onSome accept f q) (TokenParser.onSome accept f' q') where
  regular := Regular.onSome heof hf hq.regular
  goes ts s rest h := by
    cases ts with
    | nil => exact hq.goes [] s rest h
    | cons t ts =>
        cases ht : accept t with
        | some c =>
            rw [onSome_cons_pos ht] at h
            obtain ⟨u, rfl, -⟩ := (hf c).takes ts _ rest h
            rw [List.length_cons, List.length_append]
            omega
        | none =>
            rw [onSome_cons_neg ht] at h
            exact hq.goes _ s rest h

theorem Advances.onToken {accept : τ → Bool} {p p' q q' : Parser τ ε (σ ⊕ β)}
    (heof : accept eof = false) (hp : Regular eof n 0 p p') (hq : Advances eof n q q') :
    Advances eof n (TokenParser.onToken accept p q) (TokenParser.onToken accept p' q') :=
  Advances.onSome (by rw [heof]; rfl) (fun _ => hp) hq

theorem Advances.onTokens {accepts : List (τ → Bool)} {p p' q q' : Parser τ ε (σ ⊕ β)}
    (hp : Regular eof n 0 p p') (hq : Advances eof n q q') (hne : accepts ≠ [])
    (heof : ∀ accept ∈ accepts, accept eof = false) :
    Advances eof n (TokenParser.onTokens accepts p q) (TokenParser.onTokens accepts p' q') where
  regular := Regular.onTokens hp hq.regular (Nat.zero_le _) heof
  goes ts s rest h := by
    rw [TokenParser.onTokens] at h
    split at h
    · rename_i hbegins
      have hle := begins_length hbegins
      have hpos := List.length_pos_iff.mpr hne
      obtain ⟨u, hu, -⟩ := hp.takes _ _ rest h
      have hlen := congrArg List.length hu
      rw [List.length_drop, List.length_append] at hlen
      omega
    · exact hq.goes ts s rest h

variable {body body' : σ → Parser τ ε (σ ⊕ β)}

theorem iterateFrom_succ (fuel : Nat) (s : σ) (ts : List τ) :
    iterateFrom body (fuel + 1) s ts =
      match body s ts with
      | .ok (.inl s') rest => iterateFrom body fuel s' rest
      | .ok (.inr b) rest => .ok b rest
      | .error e => .error e
      | .unfinished => .unfinished := by
  rw [iterateFrom, bind_apply]
  cases body s ts with
  | ok step rest => cases step <;> rfl
  | error e => rfl
  | unfinished => rfl

theorem iterateFrom_finishes (h : ∀ s, Advances eof n (body s) (body' s)) {fuel : Nat} {s : σ}
    {ts : List τ} (hfuel : ts.length < fuel) (hn : ts.length < n) :
    iterateFrom body fuel s ts ≠ .unfinished := by
  induction fuel generalizing s ts with
  | zero => omega
  | succ fuel ih =>
      rw [iterateFrom_succ]
      cases hbody : body s ts with
      | ok step rest =>
          cases step with
          | inl s' =>
              have hlt := (h s).goes ts s' rest hbody
              exact ih (by omega) (by omega)
          | inr b => simp
      | error e => simp
      | unfinished => exact absurd hbody ((h s).regular.finishes ts hn)

theorem iterateFrom_takes (h : ∀ s, Advances eof n (body s) (body' s)) {fuel : Nat} {s : σ}
    {ts rest : List τ} {b : β} (hrun : iterateFrom body fuel s ts = .ok b rest) :
    ∃ u, ts = u ++ rest := by
  induction fuel generalizing s ts with
  | zero => cases hrun
  | succ fuel ih =>
      rw [iterateFrom_succ] at hrun
      cases hbody : body s ts with
      | ok step mid =>
          rw [hbody] at hrun
          obtain ⟨u, rfl, -⟩ := (h s).regular.takes ts step mid hbody
          cases step with
          | inl s' =>
              obtain ⟨v, rfl⟩ := ih hrun
              exact ⟨u ++ v, (List.append_assoc u v rest).symm⟩
          | inr b' =>
              cases hrun
              exact ⟨u, rfl⟩
      | error e =>
          rw [hbody] at hrun
          cases hrun
      | unfinished =>
          rw [hbody] at hrun
          cases hrun

theorem iterateFrom_stable (h : ∀ s, Advances eof n (body s) (body' s)) {fuel fuel' : Nat} {s : σ}
    {u r r' : List τ} {b : β} (hrun : iterateFrom body fuel s (u ++ r) = .ok b r)
    (hr : Truncates eof r r') (hfuel : (u ++ r').length < fuel') :
    iterateFrom body fuel' s (u ++ r') = .ok b r' := by
  induction fuel generalizing fuel' s u with
  | zero => cases hrun
  | succ fuel ih =>
      obtain ⟨fuel', rfl⟩ : ∃ m, fuel' = m + 1 := ⟨fuel' - 1, by omega⟩
      rw [iterateFrom_succ] at hrun ⊢
      cases hbody : body s (u ++ r) with
      | ok step mid =>
          rw [hbody] at hrun
          obtain ⟨v, hv, -⟩ := (h s).regular.takes _ step mid hbody
          cases step with
          | inl s' =>
              obtain ⟨w, rfl⟩ := iterateFrom_takes h hrun
              rw [← List.append_assoc] at hv
              obtain rfl := List.append_cancel_right hv
              rw [List.append_assoc] at hbody hfuel ⊢
              have hstable := (h s).regular.stable v (w ++ r) (w ++ r') _ hbody (hr.append w)
              have hlt := (h s).goes _ s' _ hstable
              rw [hstable]
              exact ih hrun (by omega)
          | inr b' =>
              cases hrun
              rw [(h s).regular.stable u r r' _ hbody hr]
      | error e =>
          rw [hbody] at hrun
          cases hrun
      | unfinished =>
          rw [hbody] at hrun
          cases hrun

theorem iterateFrom_agrees (h : ∀ s, Advances eof n (body s) (body' s)) {fuel : Nat} {s : σ}
    {ts : List τ} : iterateFrom body' fuel s ts = iterateFrom body fuel s ts ∨
      iterateFrom body' fuel s ts = .unfinished := by
  induction fuel generalizing s ts with
  | zero => exact .inl rfl
  | succ fuel ih =>
      rw [iterateFrom_succ, iterateFrom_succ]
      rcases (h s).regular.agrees ts with hagrees | hagrees
      · rw [hagrees]
        cases body s ts with
        | ok step rest =>
            cases step with
            | inl s' => exact ih
            | inr b => exact .inl rfl
        | error e => exact .inl rfl
        | unfinished => exact .inl rfl
      · rw [hagrees]
        exact .inr rfl

theorem regular_iterate (h : ∀ s, Advances eof n (body s) (body' s)) (s : σ) :
    Regular eof n 0 (iterate body s) (iterate body' s) where
  finishes ts hts := iterateFrom_finishes h (Nat.lt_succ_self _) hts
  takes ts b rest hrun := by
    obtain ⟨u, hu⟩ := iterateFrom_takes h hrun
    exact ⟨u, hu, Nat.zero_le _⟩
  stable u r r' b hrun hr := iterateFrom_stable h hrun hr (Nat.lt_succ_self _)
  agrees ts := iterateFrom_agrees h

/-- A loop with enough fuel does not depend on it. -/
theorem iterateFrom_eq (h : ∀ s, Advances eof n (body s) (body' s)) {fuel fuel' : Nat} {s : σ}
    {ts : List τ} (hfuel : ts.length < fuel) (hfuel' : ts.length < fuel') :
    iterateFrom body fuel s ts = iterateFrom body fuel' s ts := by
  induction fuel generalizing fuel' s ts with
  | zero => omega
  | succ fuel ih =>
      obtain ⟨fuel', rfl⟩ : ∃ m, fuel' = m + 1 := ⟨fuel' - 1, by omega⟩
      rw [iterateFrom_succ, iterateFrom_succ]
      cases hbody : body s ts with
      | ok step rest =>
          cases step with
          | inl s' =>
              have hlt := (h s).goes ts s' rest hbody
              exact ih (by omega) (by omega)
          | inr b => rfl
      | error e => rfl
      | unfinished => rfl

theorem advances_moreItems {accept : τ → Bool} {p p' : Parser τ ε α}
    (hp : Regular eof n 1 p p') (heof : accept eof = false) (acc : List α) :
    Advances eof n (moreItems accept p acc) (moreItems accept p' acc) :=
  Advances.onToken heof (hp.bind fun _ => regular_pure _) (advances_done acc)

theorem regular_sepBy {accept : τ → Bool} {p p' : Parser τ ε α} (heof : accept eof = false)
    (hp : Regular eof n 1 p p') : Regular eof n 1 (sepBy accept p) (sepBy accept p') :=
  hp.bind fun a => regular_iterate (advances_moreItems hp heof) [a]

theorem iterate_eq (h : ∀ s, Advances eof n (body s) (body' s)) (s : σ) (ts : List τ) :
    iterate body s ts =
      match body s ts with
      | .ok (.inl s') rest => iterate body s' rest
      | .ok (.inr b) rest => .ok b rest
      | .error e => .error e
      | .unfinished => .unfinished := by
  rw [iterate, iterateFrom_succ]
  cases hbody : body s ts with
  | ok step rest =>
      cases step with
      | inl s' => exact iterateFrom_eq h ((h s).goes ts s' rest hbody) (Nat.lt_succ_self _)
      | inr b => rfl
  | error e => rfl
  | unfinished => rfl

end Loops

section Unfinished

variable {τ ε α β : Type} {eof : τ} {accept : τ → Bool}

theorem bind_unfinished {p : Parser τ ε α} {f : α → Parser τ ε β} {ts : List τ}
    (h : (p >>= f) ts = .unfinished) :
    p ts = .unfinished ∨ ∃ a rest, p ts = .ok a rest ∧ f a rest = .unfinished := by
  rw [bind_apply] at h
  cases hp : p ts with
  | ok a rest =>
      rw [hp] at h
      exact .inr ⟨a, rest, rfl, h⟩
  | error e =>
      rw [hp] at h
      cases h
  | unfinished => exact .inl rfl

theorem bind_of_unfinished {p : Parser τ ε α} {f : α → Parser τ ε β} {ts : List τ}
    (h : p ts = .unfinished) : (p >>= f) ts = .unfinished := by
  rw [bind_apply, h]

theorem ifNext_unfinished {p q : Parser τ ε α} {ts : List τ}
    (h : ifNext accept p q ts = .unfinished) :
    (∃ t rest, ts = t :: rest ∧ accept t = true ∧ p ts = .unfinished) ∨ q ts = .unfinished := by
  cases ts with
  | nil => exact .inr h
  | cons t rest =>
      rw [ifNext_cons] at h
      split at h
      · rename_i ht
        exact .inl ⟨t, rest, rfl, ht, h⟩
      · exact .inr h

theorem onToken_cons {p q : Parser τ ε α} (t : τ) (rest : List τ) :
    onToken accept p q (t :: rest) = if accept t then p rest else q (t :: rest) := by
  cases ht : accept t with
  | true => exact onSome_cons_pos (by rw [ht]; rfl)
  | false => exact onSome_cons_neg (by rw [ht]; rfl)

/-- A parser that finishes is not the one that does not. -/
theorem Regular.ifNext_unfinished {p q : Parser τ ε α} {n k : Nat} {ts : List τ}
    (hp : Regular eof n k p p) (hts : ts.length < n)
    (h : TokenParser.ifNext accept p q ts = .unfinished) : q ts = .unfinished := by
  rcases TokenParser.ifNext_unfinished h with ⟨_, _, _, _, hstop⟩ | hstop
  · exact absurd hstop (hp.finishes ts hts)
  · exact hstop

theorem ifNext_pos {p q : Parser τ ε α} {t : τ} {rest : List τ} (ht : accept t = true) :
    ifNext accept p q (t :: rest) = p (t :: rest) := by
  rw [ifNext_cons, if_pos ht]

theorem ifNext_neg {p q : Parser τ ε α} {t : τ} {rest : List τ} (ht : accept t = false) :
    ifNext accept p q (t :: rest) = q (t :: rest) := by
  rw [ifNext_cons, ht]
  rfl

theorem onToken_pos {p q : Parser τ ε α} {t : τ} {rest : List τ} (ht : accept t = true) :
    onToken accept p q (t :: rest) = p rest := by
  rw [onToken_cons, if_pos ht]

theorem onToken_neg {p q : Parser τ ε α} {t : τ} {rest : List τ} (ht : accept t = false) :
    onToken accept p q (t :: rest) = q (t :: rest) := by
  rw [onToken_cons, ht]
  rfl

theorem onToken_self [DecidableEq τ] {p q : Parser τ ε α} (token : τ) (rest : List τ) :
    onToken (· = token) p q (token :: rest) = p rest :=
  onToken_pos (decide_eq_true rfl)

theorem onToken_ne [DecidableEq τ] {p q : Parser τ ε α} {t token : τ} {rest : List τ}
    (ht : t ≠ token) : onToken (· = token) p q (t :: rest) = q (t :: rest) :=
  onToken_neg (decide_eq_false ht)

theorem onToken_unfinished {p q : Parser τ ε α} {ts : List τ}
    (h : onToken accept p q ts = .unfinished) :
    (∃ t rest, ts = t :: rest ∧ accept t = true ∧ p rest = .unfinished) ∨ q ts = .unfinished := by
  cases ts with
  | nil => exact .inr h
  | cons t rest =>
      rw [onToken_cons] at h
      split at h
      · rename_i ht
        exact .inl ⟨t, rest, rfl, ht, h⟩
      · exact .inr h

/-- The places at which `sepBy` parses an item. -/
inductive ItemAt (accept : τ → Bool) (p : Parser τ ε α) : List τ → List τ → Prop where
  | first (ts : List τ) : ItemAt accept p ts ts
  | later {ts rest item : List τ} {a : α} {t : τ} (hp : p ts = .ok a (t :: rest))
      (ht : accept t = true) (hitem : ItemAt accept p rest item) : ItemAt accept p ts item

/-- An item and those behind it. -/
def itemsFrom (accept : τ → Bool) (p : Parser τ ε α) (acc : List α) : Parser τ ε (List α) := do
  let a ← p
  iterate (moreItems accept p) (acc ++ [a])

variable {p p' : Parser τ ε α}

theorem moreItems_cons {acc : List α} {rest : List τ} {t : τ} (ht : accept t = true) :
    moreItems accept p acc (t :: rest) =
      (p >>= fun a => pure (.inl (acc ++ [a]) : List α ⊕ List α)) rest := by
  rw [moreItems, onToken_pos ht]

theorem iterate_moreItems (hp : Regular eof 0 1 p p) (heof : accept eof = false) {acc : List α}
    {rest : List τ} {t : τ} (ht : accept t = true) :
    iterate (moreItems accept p) acc (t :: rest) = itemsFrom accept p acc rest := by
  rw [iterate_eq (advances_moreItems hp heof), moreItems_cons ht, itemsFrom, bind_apply,
    bind_apply]
  cases p rest with
  | ok a rest => rfl
  | error e => rfl
  | unfinished => rfl

/-- If an item is unfinished then so is the list, also when its items need more fuel than
those before the item did. -/
theorem itemsFrom_unfinished (hp' : Regular eof 0 1 p' p') (heof : accept eof = false)
    (h : ∀ ts a rest, p ts = .ok a rest → p' ts = .ok a rest ∨ p' ts = .unfinished)
    {ts item : List τ} (hitem : ItemAt accept p ts item) (hend : p' item = .unfinished)
    (acc : List α) : itemsFrom accept p' acc ts = .unfinished := by
  induction hitem generalizing acc with
  | first ts => exact bind_of_unfinished hend
  | later hp ht hitem ih =>
      rcases h _ _ _ hp with hok | hstop
      · rw [itemsFrom, bind_ok hok, iterate_moreItems hp' heof ht]
        exact ih hend _
      · exact bind_of_unfinished hstop

theorem sepBy_unfinished (hp' : Regular eof 0 1 p' p') (heof : accept eof = false)
    (h : ∀ ts a rest, p ts = .ok a rest → p' ts = .ok a rest ∨ p' ts = .unfinished)
    {ts item : List τ} (hitem : ItemAt accept p ts item) (hend : p' item = .unfinished) :
    sepBy accept p' ts = .unfinished :=
  itemsFrom_unfinished hp' heof h hitem hend []

/-- If a list is unfinished then so is one of its items. -/
theorem exists_unfinished_of_itemsFrom (hp : Regular eof 0 1 p p) (heof : accept eof = false)
    {ts : List τ} {acc : List α} (h : itemsFrom accept p acc ts = .unfinished) :
    ∃ item, ItemAt accept p ts item ∧ p item = .unfinished := by
  obtain ⟨n, hn⟩ : ∃ n, ts.length < n := ⟨_, Nat.lt_succ_self _⟩
  induction n generalizing ts acc with
  | zero => omega
  | succ n ih =>
      rcases bind_unfinished h with hstop | ⟨a, rest, hok, hmore⟩
      · exact ⟨ts, .first ts, hstop⟩
      rw [iterate_eq (advances_moreItems hp heof)] at hmore
      cases rest with
      | nil => cases hmore
      | cons t rest =>
          cases ht : accept t with
          | true =>
              rw [← iterate_eq (advances_moreItems hp heof), iterate_moreItems hp heof ht] at hmore
              obtain ⟨u, rfl, -⟩ := hp.takes ts a _ hok
              rw [List.length_append, List.length_cons] at hn
              obtain ⟨item, hitem, hend⟩ := ih hmore (by omega)
              exact ⟨item, .later hok ht hitem, hend⟩
          | false =>
              rw [moreItems, onToken_cons, ht] at hmore
              cases hmore

theorem exists_unfinished_item (hp : Regular eof 0 1 p p) (heof : accept eof = false)
    {ts : List τ} (h : sepBy accept p ts = .unfinished) :
    ∃ item, ItemAt accept p ts item ∧ p item = .unfinished :=
  exists_unfinished_of_itemsFrom hp heof (show itemsFrom accept p [] ts = .unfinished from h)

/-- The items stand behind each other. -/
theorem ItemAt.suffix (hp : Regular eof 0 1 p p) {ts item : List τ}
    (h : ItemAt accept p ts item) : ∃ u, ts = u ++ item := by
  induction h with
  | first ts => exact ⟨[], rfl⟩
  | @later ts rest item a t hok ht hitem ih =>
      obtain ⟨u, hu, -⟩ := hp.takes _ _ _ hok
      obtain ⟨v, hv⟩ := ih
      refine ⟨u ++ t :: v, ?_⟩
      rw [hu, hv, List.append_assoc, List.cons_append]

end Unfinished


end PostgressRs.Lib.TokenParser
