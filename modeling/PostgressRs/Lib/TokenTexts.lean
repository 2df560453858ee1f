import Mathlib.Data.List.Basic

/-!
Texts of tokens with one separator between them, and the first place in such a
text where a pattern occurs.
-/

namespace PostgressRs.Lib.TokenTexts

variable {α : Type} {sep : α}

section Texts

theorem prefix_append_sep_iff {op word : List α} (hop : sep ∉ op) (hword : sep ∉ word)
    (rest : List α) : op ++ [sep] <+: word ++ sep :: rest ↔ op = word := by
  induction op generalizing word with
  | nil =>
      cases word with
      | nil => simp
      | cons c word =>
          rw [List.mem_cons, not_or] at hword
          simp [List.cons_prefix_cons, hword.1]
  | cons d op ih =>
      rw [List.mem_cons, not_or] at hop
      cases word with
      | nil =>
          have hne : d ≠ sep := fun h => hop.1 h.symm
          simp [List.cons_prefix_cons, hne]
      | cons c word =>
          rw [List.mem_cons, not_or] at hword
          rw [List.cons_append, List.cons_append, List.cons_prefix_cons, ih hop.2 hword.2,
            List.cons.injEq]

/-- The text of some tokens. -/
def joined (sep : α) (tokens : List (List α)) : List α := [sep].intercalate tokens

theorem joined_cons_cons (word word' : List α) (tokens : List (List α)) :
    joined sep (word :: word' :: tokens) = word ++ sep :: joined sep (word' :: tokens) := by
  simp [joined, List.intercalate, List.intersperse]

@[simp] theorem joined_singleton (word : List α) : joined sep [word] = word := by
  simp [joined, List.intercalate, List.intersperse]

theorem joined_append (word word' : List α) (tokens tokens' : List (List α)) :
    joined sep (word :: tokens ++ word' :: tokens') =
      joined sep (word :: tokens) ++ sep :: joined sep (word' :: tokens') := by
  induction tokens generalizing word with
  | nil => rw [List.singleton_append, joined_cons_cons, joined_singleton]
  | cons next tokens ih =>
      rw [List.cons_append, List.cons_append, joined_cons_cons, joined_cons_cons,
        ← List.cons_append, ih, List.append_assoc, List.cons_append]

theorem joined_ne_nil {word : List α} (hword : word ≠ []) (tokens : List (List α)) :
    joined sep (word :: tokens) ≠ [] := by
  cases tokens with
  | nil => rwa [joined_singleton]
  | cons next tokens =>
      rw [joined_cons_cons]
      exact List.append_ne_nil_of_left_ne_nil hword _

/-- A text begins with a character of a token. -/
theorem exists_mem_of_head? {tokens : List (List α)} (htokens : ∀ token ∈ tokens, token ≠ [])
    {c : α} (h : (joined sep tokens).head? = some c) : ∃ token ∈ tokens, c ∈ token := by
  cases tokens with
  | nil => cases h
  | cons word tokens =>
      refine ⟨word, List.mem_cons_self, List.mem_of_mem_head? ?_⟩
      cases tokens with
      | nil => rwa [joined_singleton] at h
      | cons next tokens =>
          rwa [joined_cons_cons, List.head?_append_of_ne_nil _ (htokens word List.mem_cons_self)]
            at h

/-- A text ends with a character of a token. -/
theorem exists_mem_of_getLast? {tokens : List (List α)} (htokens : ∀ token ∈ tokens, token ≠ [])
    {c : α} (h : (joined sep tokens).getLast? = some c) : ∃ token ∈ tokens, c ∈ token := by
  induction tokens with
  | nil => cases h
  | cons word tokens ih =>
      rw [List.forall_mem_cons] at htokens
      cases tokens with
      | nil =>
          rw [joined_singleton] at h
          exact ⟨word, List.mem_cons_self, List.mem_of_mem_getLast? h⟩
      | cons next tokens =>
          have hnext : joined sep (next :: tokens) ≠ [] :=
            joined_ne_nil (htokens.2 next List.mem_cons_self) tokens
          rw [joined_cons_cons, List.getLast?_append_of_ne_nil _ (List.cons_ne_nil _ _),
            List.getLast?_cons_of_ne_nil hnext] at h
          obtain ⟨token, htoken, hc⟩ := ih htokens.2 h
          exact ⟨token, List.mem_cons_of_mem _ htoken, hc⟩

/-- An operator between two separators stands at the front of a text exactly if
it is the first token and not the only one. -/
theorem sep_op_sep_prefix_iff {op word : List α} {tokens : List (List α)} (hop : sep ∉ op)
    (hword : sep ∉ word) :
    op ++ [sep] <+: joined sep (word :: tokens) ↔ op = word ∧ tokens ≠ [] := by
  cases tokens with
  | nil =>
      rw [joined_singleton]
      refine iff_of_false ?_ fun h => h.2 rfl
      intro hfront
      exact hword (hfront.subset (List.mem_append_right _ List.mem_cons_self))
  | cons word' tokens =>
      rw [joined_cons_cons, prefix_append_sep_iff hop hword]
      exact (and_iff_left (List.cons_ne_nil _ _)).symm

end Texts

section Search

variable [DecidableEq α]

/-- The parts of a text before and behind the first occurrence of a pattern. -/
def splitOnce (pattern : List α) : List α → Option (List α × List α)
  | [] => if pattern = [] then some ([], []) else none
  | c :: rest =>
      if pattern.isPrefixOf (c :: rest) then some ([], (c :: rest).drop pattern.length)
      else (splitOnce pattern rest).map fun parts => (c :: parts.1, parts.2)

theorem splitOnce_length {pattern text before after : List α}
    (h : splitOnce pattern text = some (before, after)) :
    before.length + pattern.length + after.length = text.length := by
  induction text generalizing before with
  | nil =>
      rw [splitOnce, Option.ite_none_right_eq_some] at h
      obtain ⟨rfl, h⟩ := h
      cases h
      rfl
  | cons c rest ih =>
      rw [splitOnce] at h
      split at h
      · rename_i hfront
        have hle := (List.isPrefixOf_iff_prefix.mp hfront).length_le
        cases h
        rw [List.length_drop, List.length_nil]
        omega
      · obtain ⟨⟨before', after'⟩, hrest, heq⟩ := Option.map_eq_some_iff.mp h
        cases heq
        have hlen : before'.length + pattern.length + after'.length = rest.length := ih hrest
        change before'.length + 1 + pattern.length + after'.length = rest.length + 1
        omega

/-- Characters before the first separator are no place for a pattern that begins
with it. -/
theorem splitOnce_append {word : List α} (hword : sep ∉ word) (pattern rest : List α) :
    splitOnce (sep :: pattern) (word ++ rest) =
      (splitOnce (sep :: pattern) rest).map fun parts => (word ++ parts.1, parts.2) := by
  induction word with
  | nil => simp
  | cons c word ih =>
      rw [List.mem_cons, not_or] at hword
      have hno : ¬ (sep :: pattern).isPrefixOf (c :: (word ++ rest)) = true := by
        rw [List.isPrefixOf_iff_prefix, List.cons_prefix_cons]
        exact fun h => hword.1 h.1
      rw [List.cons_append, splitOnce, if_neg hno, ih hword.2, Option.map_map]
      rfl

theorem splitOnce_eq_none {word : List α} (hword : sep ∉ word) (pattern : List α) :
    splitOnce (sep :: pattern) word = none := by
  have h := splitOnce_append hword pattern []
  rwa [List.append_nil, splitOnce, if_neg (List.cons_ne_nil _ _), Option.map_none] at h

variable {op : List α}

theorem splitOnce_joined_eq_none {word : List α} {tokens : List (List α)} (hop : sep ∉ op)
    (htokens : ∀ token ∈ word :: tokens, sep ∉ token) (hnone : op ∉ tokens) :
    splitOnce (sep :: (op ++ [sep])) (joined sep (word :: tokens)) = none := by
  induction tokens generalizing word with
  | nil =>
      rw [joined_singleton]
      exact splitOnce_eq_none (htokens word List.mem_cons_self) _
  | cons word' tokens ih =>
      rw [List.forall_mem_cons] at htokens
      rw [List.mem_cons, not_or] at hnone
      have hno : ¬ (sep :: (op ++ [sep])).isPrefixOf
          (sep :: joined sep (word' :: tokens)) = true := by
        rw [List.isPrefixOf_iff_prefix, List.prefix_cons_inj,
          sep_op_sep_prefix_iff hop (htokens.2 word' List.mem_cons_self)]
        exact fun h => hnone.1 h.1
      rw [joined_cons_cons, splitOnce_append htokens.1, splitOnce, if_neg hno,
        ih htokens.2 hnone.2, Option.map_none, Option.map_none]

/-- The text is cut around the first token that is the operator, if something
stands on both sides of it. -/
theorem splitOnce_joined {word right : List α} {before after : List (List α)} (hop : sep ∉ op)
    (htokens : ∀ token ∈ word :: before, sep ∉ token) (hfirst : op ∉ before) :
    splitOnce (sep :: (op ++ [sep])) (joined sep (word :: (before ++ op :: right :: after))) =
      some (joined sep (word :: before), joined sep (right :: after)) := by
  induction before generalizing word with
  | nil =>
      have hyes : (sep :: (op ++ [sep])).isPrefixOf
          (sep :: joined sep (op :: right :: after)) = true := by
        rw [List.isPrefixOf_iff_prefix, List.prefix_cons_inj, sep_op_sep_prefix_iff hop hop]
        exact ⟨rfl, List.cons_ne_nil _ _⟩
      have hcut : (sep :: joined sep (op :: right :: after)).drop (sep :: (op ++ [sep])).length =
          joined sep (right :: after) := by
        rw [joined_cons_cons, List.length_cons, List.drop_succ_cons,
          List.append_cons op sep (joined sep (right :: after))]
        exact List.drop_left
      rw [List.nil_append, joined_cons_cons, splitOnce_append (htokens word List.mem_cons_self),
        splitOnce, if_pos hyes, hcut, Option.map_some, List.append_nil, joined_singleton]
  | cons word' before ih =>
      rw [List.forall_mem_cons] at htokens
      rw [List.mem_cons, not_or] at hfirst
      have hno : ¬ (sep :: (op ++ [sep])).isPrefixOf
          (sep :: joined sep (word' :: (before ++ op :: right :: after))) = true := by
        rw [List.isPrefixOf_iff_prefix, List.prefix_cons_inj,
          sep_op_sep_prefix_iff hop (htokens.2 word' List.mem_cons_self)]
        exact fun h => hfirst.1 h.1
      rw [List.cons_append, joined_cons_cons, splitOnce_append htokens.1, splitOnce, if_neg hno,
        ih htokens.2 hfirst.2, Option.map_some, Option.map_some, joined_cons_cons]

end Search

end PostgressRs.Lib.TokenTexts
