import PostgressRs.Sql.ExprRoundTrip

/-!
Order lists as they are written (`parse_select` of `src/sql/parser/select.rs` and
`parse_window_spec` of `src/sql/parser/expr.rs`).
-/

namespace PostgressRs.Sql.OrderTexts

open PostgressRs.Lib.TokenParser
open PostgressRs.Sql.Ast
open PostgressRs.Sql.ExprParser
open PostgressRs.Sql.ExprPrinter
open PostgressRs.Sql.ExprRegularity
open PostgressRs.Sql.ExprRoundTrip
open PostgressRs.Sql.SelectParser
open PostgressRs.Sql.Tokenizer
open PostgressRs.Sql.TokenStream

section Texts

/-- The tokens that follow an item's expression in a list before `stop`. -/
def followers (stop : Token) : List Token :=
  [.comma, .keyword "ASC", .keyword "DESC", .keyword "NULLS", stop]

/-- An item of an order list as it is written: the tokens of its expression, which are read
as this expression before each of its followers, and its words. -/
structure ItemText (n : Nat) (stop : Token) where
  tokens : List Token
  item : OrderByItem Expr
  reads : ∀ t ∈ followers stop, ∀ rest,
    (calls n).expr (tokens ++ t :: rest) = .ok item.expr (t :: rest)

def directionWords : SortDirection → List Token
  | .asc => [.keyword "ASC"]
  | .desc => [.keyword "DESC"]
  | .default => []

def nullsWords : NullsOrder → List Token
  | .first => [.keyword "NULLS", .keyword "FIRST"]
  | .last => [.keyword "NULLS", .keyword "LAST"]
  | .default => []

variable {n : Nat} {stop : Token}

def ItemText.print (text : ItemText n stop) : List Token :=
  text.tokens ++ (directionWords text.item.direction ++ nullsWords text.item.nulls)

def printItems : List (ItemText n stop) → List Token
  | [] => []
  | [text] => text.print
  | text :: texts => text.print ++ .comma :: printItems texts

/-- The list with its words before it. -/
def printOrder (texts : List (ItemText n stop)) : List Token :=
  .keyword "ORDER" :: .keyword "BY" :: printItems texts

/-- What may stand behind a list. -/
structure EndsList (t : Token) : Prop where
  words : oneOf ["ASC", "DESC", "NULLS"] t = false
  comma : t ≠ .comma

theorem comma_mem_followers : .comma ∈ followers stop := by simp [followers]

theorem stop_mem_followers : stop ∈ followers stop := by simp [followers]

theorem eq_none_of_mem_followers {t : Token} (hstop : continueLevel stop = none)
    (ht : t ∈ followers stop) : continueLevel t = none := by
  simp only [followers, List.mem_cons, List.not_mem_nil, or_false] at ht
  rcases ht with rfl | rfl | rfl | rfl | rfl
  · rfl
  · decide
  · decide
  · decide
  · exact hstop

theorem keyword_of_oneOf {words : List String} {word : String} {t : Token}
    (h : oneOf words t = false) (hword : word ∈ words) : keyword word t = false := by
  cases t with
  | keyword k =>
      rw [keyword, decide_eq_false_iff_not]
      rintro rfl
      rw [oneOf, decide_eq_false_iff_not] at h
      exact h hword
  | _ => rfl

theorem sortDirection_words (direction : SortDirection) {t : Token} {rest : List Token}
    (hasc : keyword "ASC" t = false) (hdesc : keyword "DESC" t = false) :
    sortDirection (directionWords direction ++ t :: rest) = .ok direction (t :: rest) := by
  cases direction with
  | asc => rfl
  | desc => rfl
  | default =>
      rw [directionWords, List.nil_append, sortDirection, onToken_neg hasc, onToken_neg hdesc]
      rfl

theorem nullsOrder_words (nulls : NullsOrder) {t : Token} {rest : List Token}
    (ht : keyword "NULLS" t = false) :
    nullsOrder (nullsWords nulls ++ t :: rest) = .ok nulls (t :: rest) := by
  cases nulls with
  | first => rfl
  | last => rfl
  | default =>
      rw [nullsWords, List.nil_append, nullsOrder, onToken_neg ht]
      rfl

/-- The words of an item, and what stands behind it, begin with one of its followers. -/
theorem exists_words (direction : SortDirection) (nulls : NullsOrder) {t : Token}
    (ht : t ∈ followers stop) (rest : List Token) :
    ∃ t' ∈ followers stop, ∃ rest',
      directionWords direction ++ nullsWords nulls ++ t :: rest = t' :: rest' := by
  cases direction with
  | asc | desc => exact ⟨_, by simp [followers], _, rfl⟩
  | default =>
      cases nulls with
      | first | last => exact ⟨_, by simp [followers], _, rfl⟩
      | default => exact ⟨t, ht, rest, rfl⟩

theorem orderByItem_print (text : ItemText n stop) {t : Token} (ht : t ∈ followers stop)
    (hends : oneOf ["ASC", "DESC", "NULLS"] t = false) (rest : List Token) :
    orderByItem (calls n) (text.print ++ t :: rest) = .ok text.item (t :: rest) := by
  obtain ⟨t', ht', rest', heq⟩ := exists_words text.item.direction text.item.nulls ht rest
  have hnulls : ∃ t' rest', nullsWords text.item.nulls ++ t :: rest = t' :: rest' ∧
      keyword "ASC" t' = false ∧ keyword "DESC" t' = false := by
    cases text.item.nulls with
    | first | last => exact ⟨_, _, rfl, by decide, by decide⟩
    | default =>
        exact ⟨t, rest, rfl, keyword_of_oneOf hends (by decide),
          keyword_of_oneOf hends (by decide)⟩
  obtain ⟨u, rest'', hu, hasc, hdesc⟩ := hnulls
  have hdirection := @sortDirection_words text.item.direction u rest'' hasc hdesc
  rw [← hu, ← List.append_assoc, heq] at hdirection
  have hwords := @nullsOrder_words text.item.nulls t rest (keyword_of_oneOf hends (by decide))
  rw [ItemText.print, List.append_assoc, heq, orderByItem, bind_ok (text.reads t' ht' rest'),
    bind_ok hdirection, bind_ok hwords]
  rfl

theorem itemsFrom_print {texts : List (ItemText n stop)} (hne : texts ≠ [])
    (hstop : EndsList stop) (rest : List Token) (acc : List (OrderByItem Expr)) :
    itemsFrom (· = .comma) (orderByItem (calls n)) acc (printItems texts ++ stop :: rest) =
      .ok (acc ++ texts.map ItemText.item) (stop :: rest) := by
  have hregular : Regular .eof 0 1 (orderByItem (calls n)) (orderByItem (calls n)) :=
    (regular_orderByItem (regularCalls n)).atZero
  induction texts generalizing acc with
  | nil => exact absurd rfl hne
  | cons text texts ih =>
      cases texts with
      | nil =>
          have hmore : moreItems (· = .comma) (orderByItem (calls n)) (acc ++ [text.item])
              (stop :: rest) = .ok (.inr (acc ++ [text.item])) (stop :: rest) := by
            rw [moreItems, onToken_ne hstop.comma]
            rfl
          rw [printItems, itemsFrom,
            bind_ok (orderByItem_print text stop_mem_followers hstop.words rest),
            iterate_eq (advances_moreItems hregular rfl), hmore]
          rfl
      | cons text' texts =>
          have hprint : printItems (text :: text' :: texts) =
              text.print ++ .comma :: printItems (text' :: texts) := rfl
          rw [hprint, List.append_assoc, List.cons_append, itemsFrom,
            bind_ok (orderByItem_print text comma_mem_followers rfl _),
            iterate_moreItems hregular rfl (by rfl), ih (List.cons_ne_nil text' texts),
            List.append_assoc]
          rfl

/-- The order lists of selects and of windows are read as their items. -/
theorem listBy_print {texts : List (ItemText n stop)} (hne : texts ≠ []) (hstop : EndsList stop)
    (rest : List Token) :
    listBy "ORDER" (orderByItem (calls n)) (printOrder texts ++ stop :: rest) =
      .ok (texts.map ItemText.item) (stop :: rest) :=
  itemsFrom_print hne hstop rest []

/-- Every printed expression makes such an item. -/
def ItemText.ofPlain (hstop : continueLevel stop = none) (expr : PlainExpr)
    (hn : expr.print.length < n) (direction : SortDirection) (nulls : NullsOrder) :
    ItemText n stop where
  tokens := expr.print
  item := ⟨expr.toExpr, direction, nulls⟩
  reads _ ht rest := (roundTrips expr).expr hn (eq_none_of_mem_followers hstop ht) rest

end Texts

end PostgressRs.Sql.OrderTexts
