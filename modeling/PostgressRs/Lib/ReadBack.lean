import PostgressRs.Lib.TokenParser

/-!
What parsers read back: the rules by which a parser that is put together from others
reads a text that is put together from the texts of its parts.
-/

namespace PostgressRs.Lib.ReadBack

open PostgressRs.Lib.TokenParser

variable {τ ε α β γ σ : Type} {E F M : τ → Prop} {xs ys : List τ} {a : α} {b : β}

/-- The parser reads the text as the value, before every token with `E`. -/
def Reads (E : τ → Prop) (p : Parser τ ε α) (text : List τ) (a : α) : Prop :=
  ∀ t rest, E t → p (text ++ t :: rest) = .ok a (t :: rest)

/-- Before a token with `E`, what begins with the text begins with a token with `F`. -/
def Leads (E F : τ → Prop) (text : List τ) : Prop :=
  ∀ t rest, E t → ∃ t' rest', text ++ t :: rest = t' :: rest' ∧ F t'

section Leads

theorem leads_nil (h : ∀ t, E t → F t) : Leads E F [] := fun t rest ht => ⟨t, rest, rfl, h t ht⟩

theorem leads_cons {t : τ} (h : F t) (text : List τ) : Leads E F (t :: text) :=
  fun t' rest _ => ⟨t, text ++ t' :: rest, rfl, h⟩

theorem leads_any (E : τ → Prop) (text : List τ) : Leads E (fun _ => True) text := by
  intro t rest _
  cases text with
  | nil => exact ⟨t, rest, rfl, trivial⟩
  | cons t' text => exact ⟨t', text ++ t :: rest, rfl, trivial⟩

/-- A text that may be empty, before another one. -/
theorem Leads.append (hx : Leads M F xs) (hy : Leads E M ys) : Leads E F (xs ++ ys) := by
  intro t rest ht
  obtain ⟨t', rest', htext, ht'⟩ := hy t rest ht
  obtain ⟨t'', rest'', htext', ht''⟩ := hx t' rest' ht'
  exact ⟨t'', rest'', by rw [List.append_assoc, htext, htext'], ht''⟩

/-- A text that is not empty, before another one. -/
theorem Leads.append_any (hx : Leads (fun _ => True) F xs) (ys : List τ) :
    Leads E F (xs ++ ys) :=
  hx.append (leads_any E ys)

theorem Leads.mono (h : Leads E F xs) {F' : τ → Prop} (hF : ∀ t, F t → F' t) : Leads E F' xs := by
  intro t rest ht
  obtain ⟨t', rest', htext, ht'⟩ := h t rest ht
  exact ⟨t', rest', htext, hF t' ht'⟩

end Leads

section Rules

variable {p : Parser τ ε α} {q : Parser τ ε α} {f : α → Parser τ ε β} {accept : τ → Bool}

theorem Reads.mono (h : Reads E p xs a) {E' : τ → Prop} (hE : ∀ t, E' t → E t) :
    Reads E' p xs a :=
  fun t rest ht => h t rest (hE t ht)

theorem reads_pure (a : α) : Reads E (pure a : Parser τ ε α) [] a := fun _ _ _ => rfl

theorem Reads.bind (hp : Reads M p xs a) (hlead : Leads E M ys) (hf : Reads E (f a) ys b) :
    Reads E (p >>= f) (xs ++ ys) b := by
  intro t rest ht
  obtain ⟨t', rest', htext, ht'⟩ := hlead t rest ht
  have hread := hp t' rest' ht'
  rw [← htext] at hread
  rw [List.append_assoc, bind_ok hread]
  exact hf t rest ht

theorem Reads.map (hp : Reads E p xs a) (g : α → β) :
    Reads E (p >>= fun a => pure (g a)) xs (g a) := by
  intro t rest ht
  rw [bind_ok (hp t rest ht)]
  rfl

/-- A parser that only takes one token. -/
theorem Reads.cons_bind {t : τ} (hp : ∀ rest, p (t :: rest) = .ok a rest)
    (hf : Reads E (f a) ys b) :
    Reads E (p >>= f) (t :: ys) b := by
  intro t' rest ht'
  rw [List.cons_append, bind_ok (hp _)]
  exact hf t' rest ht'

theorem reads_onSome_pos {accept : τ → Option γ} {f : γ → Parser τ ε α} {t : τ} {c : γ}
    (ht : accept t = some c) (hf : Reads E (f c) xs a) :
    Reads E (onSome accept f q) (t :: xs) a := by
  intro t' rest ht'
  rw [List.cons_append, onSome_cons_pos ht]
  exact hf t' rest ht'

theorem reads_onSome_neg {accept : τ → Option γ} {f : γ → Parser τ ε α}
    (hlead : Leads E (fun t => accept t = none) xs) (hq : Reads E q xs a) :
    Reads E (onSome accept f q) xs a := by
  intro t rest ht
  obtain ⟨t', rest', htext, ht'⟩ := hlead t rest ht
  have hread := hq t rest ht
  rw [htext] at hread ⊢
  rw [onSome_cons_neg ht', hread]

theorem reads_onToken_pos {t : τ} (ht : accept t = true) (hp : Reads E p xs a) :
    Reads E (onToken accept p q) (t :: xs) a := by
  intro t' rest ht'
  rw [List.cons_append, onToken_pos ht]
  exact hp t' rest ht'

theorem reads_onToken_neg (hlead : Leads E (fun t => accept t = false) xs) (hq : Reads E q xs a) :
    Reads E (onToken accept p q) xs a := by
  intro t rest ht
  obtain ⟨t', rest', htext, ht'⟩ := hlead t rest ht
  have hread := hq t rest ht
  rw [htext] at hread ⊢
  rw [onToken_neg ht', hread]

theorem reads_onToken_other {t : τ} (ht : accept t = false) (hq : Reads E q (t :: xs) a) :
    Reads E (onToken accept p q) (t :: xs) a := by
  intro t' rest ht'
  have hread := hq t' rest ht'
  rw [List.cons_append] at hread ⊢
  rw [onToken_neg ht, hread]

theorem reads_ifNext_pos {t : τ} (ht : accept t = true) (hp : Reads E p (t :: xs) a) :
    Reads E (ifNext accept p q) (t :: xs) a := by
  intro t' rest ht'
  have hread := hp t' rest ht'
  rw [List.cons_append] at hread ⊢
  rw [ifNext_pos ht, hread]

theorem reads_ifNext_other {t : τ} (ht : accept t = false) (hq : Reads E q (t :: xs) a) :
    Reads E (ifNext accept p q) (t :: xs) a := by
  intro t' rest ht'
  have hread := hq t' rest ht'
  rw [List.cons_append] at hread ⊢
  rw [ifNext_neg ht, hread]

end Rules

section Loops

/-- The rounds that a loop takes over a text. -/
inductive Rounds (E : τ → Prop) (body : σ → Parser τ ε (σ ⊕ β)) : σ → List τ → β → Prop
  | stop {s : σ} {xs : List τ} {b : β} (hbody : Reads E (body s) xs (.inr b)) : Rounds E body s xs b
  | go {s s' : σ} {xs ys : List τ} {b : β} {M : τ → Prop} (hbody : Reads M (body s) xs (.inl s'))
      (hlead : Leads E M ys) (hrest : Rounds E body s' ys b) : Rounds E body s (xs ++ ys) b

theorem Rounds.reads {eof : τ} {body : σ → Parser τ ε (σ ⊕ β)}
    (hbody : ∀ s, Advances eof 0 (body s) (body s)) {s : σ} (h : Rounds E body s xs b) :
    Reads E (iterate body s) xs b := by
  induction h with
  | stop hstop =>
      intro t rest ht
      rw [iterate_eq hbody, hstop t rest ht]
  | go hround hlead _ ih =>
      intro t rest ht
      obtain ⟨t', rest', htext, ht'⟩ := hlead t rest ht
      have hread := hround t' rest' ht'
      rw [← htext] at hread
      rw [List.append_assoc, iterate_eq hbody, hread]
      exact ih t rest ht

/-- One or more items with separators between them. -/
def printSep (separator : τ) (print : γ → List τ) (first : γ) (more : List γ) : List τ :=
  print first ++ more.flatMap fun item => separator :: print item

theorem length_le_printSep (separator : τ) (print : γ → List τ) {first : γ} {more : List γ}
    {item : γ} (h : item ∈ first :: more) :
    (print item).length ≤ (printSep separator print first more).length := by
  rw [printSep, List.length_append]
  rcases List.mem_cons.mp h with rfl | hmem
  · exact Nat.le_add_right _ _
  · have hle := (List.sublist_flatten_of_mem (List.mem_map_of_mem (f := fun item =>
      separator :: print item) hmem)).length_le
    rw [← List.flatMap_def, List.length_cons] at hle
    omega

variable {accept : τ → Bool} {p : Parser τ ε α} {separator : τ} {print : γ → List τ}
  {value : γ → α}

theorem leads_more (E : τ → Prop) (separator : τ) (print : γ → List τ) (more : List γ) :
    Leads E (fun t => E t ∨ t = separator) (more.flatMap fun item => separator :: print item) := by
  cases more with
  | nil => exact leads_nil fun t ht => Or.inl ht
  | cons item more =>
      rw [List.flatMap_cons, List.cons_append]
      exact leads_cons (F := fun t => E t ∨ t = separator) (Or.inr rfl) _

theorem rounds_moreItems (haccept : accept separator = true) (hE : ∀ t, E t → accept t = false)
    {more : List γ} (acc : List α)
    (hmore : ∀ item ∈ more, Reads (fun t => E t ∨ t = separator) p (print item) (value item)) :
    Rounds E (moreItems accept p) acc (more.flatMap fun item => separator :: print item)
      (acc ++ more.map value) := by
  induction more generalizing acc with
  | nil =>
      rw [List.map_nil, List.append_nil]
      exact .stop fun t rest ht => onToken_neg (hE t ht)
  | cons item more ih =>
      have hitem := hmore item List.mem_cons_self
      have hrest := ih (acc ++ [value item]) fun item hitem =>
        hmore item (List.mem_cons_of_mem _ hitem)
      rw [List.append_assoc] at hrest
      have hround := hitem.map fun a => (Sum.inl (acc ++ [a]) : List α ⊕ List α)
      exact .go (reads_onToken_pos haccept hround) (leads_more E separator print more) hrest

theorem reads_sepBy {eof : τ} (hregular : Regular eof 0 1 p p) (heof : accept eof = false)
    (haccept : accept separator = true) (hE : ∀ t, E t → accept t = false) {first : γ}
    {more : List γ}
    (hitems : ∀ item ∈ first :: more,
      Reads (fun t => E t ∨ t = separator) p (print item) (value item)) :
    Reads E (sepBy accept p) (printSep separator print first more)
      (value first :: more.map value) := by
  have hrounds := rounds_moreItems haccept hE [value first] fun item hitem =>
    hitems item (List.mem_cons_of_mem _ hitem)
  exact (hitems first List.mem_cons_self).bind (leads_more E separator print more)
    (hrounds.reads (advances_moreItems hregular heof))

end Loops

end PostgressRs.Lib.ReadBack
