import Mathlib.Data.List.Basic
import Mathlib.Tactic.IntervalCases
import PostgressRs.Lib.TokenParser
import PostgressRs.Sql.Ast
import PostgressRs.Sql.ExprParser
import PostgressRs.Sql.ExprPrinter
import PostgressRs.Sql.ExprRegularity
import PostgressRs.Sql.SelectParser
import PostgressRs.Sql.StatementRegularity
import PostgressRs.Sql.StatementTermination
import PostgressRs.Sql.Tokenizer
import PostgressRs.Sql.TokenStream

/-!
The parser of expressions gives a printed expression back and stops behind it.
-/

namespace PostgressRs.Sql.ExprRoundTrip

open PostgressRs.Lib.TokenParser
open PostgressRs.Sql.Ast
open PostgressRs.Sql.ExprParser
open PostgressRs.Sql.ExprPrinter
open PostgressRs.Sql.ExprRegularity
open PostgressRs.Sql.SelectParser
open PostgressRs.Sql.StatementRegularity
open PostgressRs.Sql.StatementTermination
open PostgressRs.Sql.Tokenizer
open PostgressRs.Sql.TokenStream

section Levels

/-- The parser of the expressions of a level and of the higher ones. -/
def parseLevel (r : Calls) : Nat → SqlParser Expr
  | 0 => parseOrExpr r
  | 1 => parseAndExpr r
  | 2 => parseNotExpr r
  | 3 => parseComparison r
  | 4 => parseBitwiseOr r
  | 5 => parseBitwiseXor r
  | 6 => parseBitwiseAnd r
  | 7 => parseShift r
  | 8 => parseAdditive r
  | 9 => parseMultiplicative r
  | 10 => parseUnary r
  | _ => parsePostfix r

/-- The operators that operands are chained with. -/
def chainOperator : Nat → Token → Option BinaryOperator
  | 0 => orOperator
  | 1 => andOperator
  | 4 => bitwiseOrOperator
  | 5 => bitwiseXorOperator
  | 6 => bitwiseAndOperator
  | 7 => shiftOperator
  | 8 => additiveOperator
  | 9 => multiplicativeOperator
  | _ => fun _ => none

def wordLevel : String → Option Nat
  | "OR" => some 0
  | "AND" => some 1
  | "IN" => some 3
  | "BETWEEN" => some 3
  | "LIKE" => some 3
  | "ILIKE" => some 3
  | "IS" => some 3
  | "AT" => some 11
  | "FILTER" => some 11
  | "OVER" => some 11
  | _ => none

/-- The level at which a token goes on with an expression before it. -/
def continueLevel : Token → Option Nat
  | .keyword k => wordLevel (toUppercase k)
  | .eq => some 3
  | .neq => some 3
  | .lt => some 3
  | .gt => some 3
  | .ltEq => some 3
  | .gtEq => some 3
  | .pipe => some 4
  | .caret => some 5
  | .ampersand => some 6
  | .ltLt => some 7
  | .gtGt => some 7
  | .plus => some 8
  | .minus => some 8
  | .star => some 9
  | .slash => some 9
  | .percent => some 9
  | .colon => some 11
  | .lParen => some 11
  | .lBracket => some 11
  | .dot => some 11
  | _ => none

/-- An expression of the level ends before these tokens. -/
def Stops (level : Nat) : List Token → Prop
  | [] => False
  | t :: _ => ∀ c ∈ continueLevel t, c < level

theorem Stops.mono {level level' : Nat} {rest : List Token} (h : Stops level rest)
    (hle : level ≤ level') : Stops level' rest := by
  cases rest with
  | nil => exact h
  | cons t rest => exact fun c hc => Nat.lt_of_lt_of_le (h c hc) hle

/-- The levels whose operators associate to the left. -/
def Chained (level : Nat) : Prop := level ≤ 9 ∧ level ≠ 2 ∧ level ≠ 3

theorem parseLevel_chain (r : Calls) {level : Nat} (h : Chained level) :
    parseLevel r level = chain (chainOperator level) (parseLevel r (level + 1)) := by
  obtain ⟨hle, hnot, hcomparison⟩ := h
  interval_cases level <;> first | rfl | contradiction

theorem continueLevel_of_keyword {t : Token} {word : String} (h : keyword word t = true) :
    continueLevel t = wordLevel word := by
  cases t with
  | keyword k => exact congrArg wordLevel (of_decide_eq_true h)
  | _ => cases h

theorem continueLevel_of_chainOperator {level : Nat} {t : Token} {op : BinaryOperator}
    (h : chainOperator level t = some op) : continueLevel t = some level := by
  unfold chainOperator at h
  split at h
  · unfold orOperator at h
    split at h
    · split at h
      · rename_i hk
        exact congrArg wordLevel hk
      · cases h
    · cases h
  · unfold andOperator at h
    split at h
    · split at h
      · rename_i hk
        exact congrArg wordLevel hk
      · cases h
    · cases h
  · unfold bitwiseOrOperator at h
    split at h <;> first | rfl | cases h
  · unfold bitwiseXorOperator at h
    split at h <;> first | rfl | cases h
  · unfold bitwiseAndOperator at h
    split at h <;> first | rfl | cases h
  · unfold shiftOperator at h
    split at h <;> first | rfl | cases h
  · unfold additiveOperator at h
    split at h <;> first | rfl | cases h
  · unfold multiplicativeOperator at h
    split at h <;> first | rfl | cases h
  · cases h

theorem chainOperator_eof (level : Nat) : chainOperator level .eof = none := by
  unfold chainOperator
  split <;> rfl

theorem continueLevel_of_comparisonOperator {t : Token} {op : BinaryOperator}
    (h : comparisonOperator t = some op) : continueLevel t = some 3 := by
  unfold comparisonOperator at h
  split at h <;> first | rfl | cases h

theorem continueLevel_of_likeOperator {t : Token} {op : BinaryOperator}
    (h : likeOperator t = some op) : continueLevel t = some 3 := by
  unfold likeOperator at h
  split at h
  · split at h
    · rename_i hk
      exact congrArg wordLevel hk
    · split at h
      · rename_i hk
        exact congrArg wordLevel hk
      · cases h
  · cases h

/-- A keyword that goes on at the level does not come next. -/
theorem Stops.keyword_eq_false {level : Nat} {t : Token} {rest : List Token}
    (h : Stops level (t :: rest)) {word : String} (hword : wordLevel word = some level) :
    keyword word t = false := by
  cases hkeyword : keyword word t with
  | false => rfl
  | true =>
      exact absurd (h level ((continueLevel_of_keyword hkeyword).trans hword)) (lt_irrefl level)

end Levels

section Ends

/-- The operands that are chained at a level, from the first of them on. -/
def chainFrom (r : Calls) (level : Nat) : Expr → SqlParser Expr :=
  iterate (chainStep (chainOperator level) (parseLevel r (level + 1)))

variable {r : Calls} (hr : RegularCalls 0 r r)

include hr

theorem regular_parseLevel (level : Nat) :
    Regular .eof 0 1 (parseLevel r level) (parseLevel r level) := by
  unfold parseLevel
  split
  · exact (regular_parseExpr hr).atZero
  · exact (regular_parseAndExpr hr).atZero
  · exact (regular_parseNotExpr hr).atZero
  · exact (regular_parseComparison hr).atZero
  · exact (regular_parseBitwiseOr hr).atZero
  · exact (regular_parseBitwiseXor hr).atZero
  · exact (regular_parseBitwiseAnd hr).atZero
  · exact (regular_parseShift hr).atZero
  · exact (regular_parseAdditive hr).atZero
  · exact (regular_parseMultiplicative hr).atZero
  · exact (regular_parseUnary hr).atZero
  · exact (regular_parsePostfix hr).atZero

theorem chainFrom_stops {level : Nat} {left : Expr} {rest : List Token} (h : Stops level rest) :
    chainFrom r level left rest = .ok left rest := by
  rw [chainFrom, iterate_eq
    (advances_chainStep (regular_parseLevel hr (level + 1)) (chainOperator_eof level))]
  cases rest with
  | nil => exact absurd h id
  | cons t rest =>
      have hnone : chainOperator level t = none := by
        cases hop : chainOperator level t with
        | none => rfl
        | some op => exact absurd (h level (continueLevel_of_chainOperator hop)) (lt_irrefl _)
      rw [chainStep, onSome_cons_neg hnone]
      rfl

theorem chainFrom_goes {level : Nat} {left right : Expr} {t : Token} {op : BinaryOperator}
    {ts rest : List Token} (ht : chainOperator level t = some op)
    (h : parseLevel r (level + 1) ts = .ok right rest) :
    chainFrom r level left (t :: ts) = chainFrom r level (.binaryOp left op right) rest := by
  rw [chainFrom, iterate_eq
    (advances_chainStep (regular_parseLevel hr (level + 1)) (chainOperator_eof level)),
    chainStep, onSome_cons_pos ht, bind_ok h]
  rfl

omit hr in
theorem comparisonTail_stops {left : Expr} {rest : List Token} (h : Stops 3 rest) :
    comparisonTail r left rest = .ok left rest := by
  cases rest with
  | nil => exact absurd h id
  | cons t rest =>
      have hlevel : continueLevel t ≠ some 3 := fun h3 => absurd (h 3 h3) (lt_irrefl 3)
      have hcomparison : comparisonOperator t = none := by
        cases hop : comparisonOperator t with
        | none => rfl
        | some op => exact absurd (continueLevel_of_comparisonOperator hop) hlevel
      have hlike : likeOperator t = none := by
        cases hop : likeOperator t with
        | none => rfl
        | some op => exact absurd (continueLevel_of_likeOperator hop) hlevel
      rw [comparisonTail, onSome_cons_neg hcomparison, onToken_neg (h.keyword_eq_false rfl),
        onToken_neg (h.keyword_eq_false rfl), onSome_cons_neg hlike,
        onToken_neg (h.keyword_eq_false rfl)]
      rfl

theorem postfix_stops {expr : Expr} {ts rest : List Token}
    (hprimary : parsePrimary r ts = .ok expr rest) (h : Stops 11 rest) :
    parsePostfix r ts = .ok expr rest := by
  cases rest with
  | nil => exact absurd h id
  | cons t rest =>
      have hcolon : decide (t = .colon) = false := by
        refine decide_eq_false ?_
        rintro rfl
        exact absurd (h 11 rfl) (lt_irrefl 11)
      have hcasts : iterate (castStep r) expr (t :: rest) = .ok expr (t :: rest) := by
        rw [iterate_eq (advances_castStep hr), castStep, onTokens, begins, hcolon]
        rfl
      have hzones : iterate (zoneStep r) expr (t :: rest) = .ok expr (t :: rest) := by
        rw [iterate_eq (advances_zoneStep hr), zoneStep, onTokens, begins,
          h.keyword_eq_false rfl]
        rfl
      rw [parsePostfix, bind_ok hprimary, bind_ok hcasts, hzones]

end Ends

section Beginnings

def beginWord : String → Option Nat
  | "NOT" => some 2
  | "TRUE" => some 11
  | "FALSE" => some 11
  | "NULL" => some 11
  | "CASE" => some 11
  | _ => none

/-- The highest level of the expressions that begin with a token. -/
def beginLevel : Token → Option Nat
  | .number _ => some 11
  | .string _ => some 11
  | .ident _ => some 11
  | .lParen => some 11
  | .minus => some 10
  | .plus => some 10
  | .tilde => some 10
  | .keyword k => beginWord (toUppercase k)
  | _ => none

def Begins (level : Nat) : List Token → Prop
  | [] => False
  | t :: _ => ∃ b ∈ beginLevel t, level ≤ b

theorem Begins.mono {level level' : Nat} {tokens : List Token} (h : Begins level tokens)
    (hle : level' ≤ level) : Begins level' tokens := by
  cases tokens with
  | nil => exact h
  | cons t tokens =>
      obtain ⟨b, hb, hlevel⟩ := h
      exact ⟨b, hb, Nat.le_trans hle hlevel⟩

theorem Begins.append {level : Nat} {tokens : List Token} (h : Begins level tokens)
    (rest : List Token) : Begins level (tokens ++ rest) := by
  cases tokens with
  | nil => exact absurd h id
  | cons t tokens => exact h

/-- A keyword that begins no expression of the level does not come first. -/
theorem Begins.keyword_eq_false {level : Nat} {t : Token} {rest : List Token}
    (h : Begins level (t :: rest)) {word : String} (hword : ∀ b ∈ beginWord word, b < level) :
    keyword word t = false := by
  obtain ⟨b, hb, hle⟩ := h
  cases hkeyword : keyword word t with
  | false => rfl
  | true =>
      cases t with
      | keyword k =>
          have hk : toUppercase k = word := of_decide_eq_true hkeyword
          have hlt := hword b (hk ▸ hb)
          omega
      | _ => cases hkeyword

theorem Begins.ne {level : Nat} {t t' : Token} {rest : List Token} (h : Begins level (t :: rest))
    (ht' : beginLevel t' = none) : t ≠ t' := by
  rintro rfl
  obtain ⟨b, hb, -⟩ := h
  rw [ht'] at hb
  cases hb

theorem Begins.exists_cons {level : Nat} {tokens : List Token} (h : Begins level tokens) :
    ∃ t ts, tokens = t :: ts := by
  cases tokens with
  | nil => exact absurd h id
  | cons t ts => exact ⟨t, ts, rfl⟩

theorem Begins.quantified_eq_none {level : Nat} {t : Token} {rest : List Token}
    (h : Begins level (t :: rest)) (op : BinaryOperator) (left : Expr) :
    quantified op left t = none := by
  have hany : keyword "ANY" t = false := h.keyword_eq_false (by simp [beginWord])
  have hsome : keyword "SOME" t = false := h.keyword_eq_false (by simp [beginWord])
  cases t with
  | keyword k =>
      rw [quantified, if_neg (of_decide_eq_false hany), if_neg (of_decide_eq_false hsome)]
  | _ => rfl

theorem Begins.unaryOperator_eq_none {t : Token} {rest : List Token}
    (h : Begins 11 (t :: rest)) : unaryOperator t = none := by
  obtain ⟨b, hb, hle⟩ := h
  cases hop : unaryOperator t with
  | none => rfl
  | some op =>
      unfold unaryOperator at hop
      split at hop
      · cases hb
        omega
      · cases hb
        omega
      · cases hb
        omega
      · cases hop

end Beginnings

section Words

/-- The words that expressions are written with. -/
def exprWords : List String :=
  ["OR", "AND", "NOT", "TRUE", "FALSE", "NULL", "LIKE", "ILIKE", "BETWEEN", "IN", "IS", "CASE",
    "WHEN", "THEN", "ELSE", "END"]

theorem toUppercase_exprWord : ∀ word ∈ exprWords, toUppercase word = word := by decide +kernel

theorem keyword_self (word : String) (h : word ∈ exprWords) :
    keyword word (.keyword word) = true :=
  decide_eq_true (toUppercase_exprWord word h)

theorem keyword_other (word word' : String) (hne : word ≠ word')
    (h : word ∈ exprWords) : keyword word' (.keyword word) = false :=
  keyword_ne (keyword_self word h) hne

theorem continueLevel_word (word : String) (h : word ∈ exprWords) :
    continueLevel (.keyword word) = wordLevel word :=
  congrArg wordLevel (toUppercase_exprWord word h)

theorem beginLevel_word (word : String) (h : word ∈ exprWords) :
    beginLevel (.keyword word) = beginWord word :=
  congrArg beginWord (toUppercase_exprWord word h)

theorem expectKeyword_word (word : String) (h : word ∈ exprWords) (ts : List Token) :
    expectKeyword word (.keyword word :: ts) = .ok () ts :=
  expectKeyword_ok (keyword_self word h)

end Words

section Descent

/-- The parser of a level gives the expression for the tokens, and stops behind them. -/
structure Written (r : Calls) (level : Nat) (tokens : List Token) (expr : Expr) : Prop where
  begins : Begins level tokens
  parsed : ∀ rest, Stops level rest → parseLevel r level (tokens ++ rest) = .ok expr rest

variable {r : Calls} (hr : RegularCalls 0 r r) {level : Nat} {tokens : List Token} {expr : Expr}

include hr

omit hr in
theorem Written.continued (h : Written r (level + 1) tokens expr) (hchained : Chained level)
    {rest : List Token} (hrest : Stops (level + 1) rest) :
    parseLevel r level (tokens ++ rest) = chainFrom r level expr rest := by
  rw [parseLevel_chain r hchained, chain, bind_ok (h.parsed rest hrest)]
  rfl

theorem Written.down (h : Written r (level + 1) tokens expr) (hle : level ≤ 10) :
    Written r level tokens expr where
  begins := h.begins.mono (Nat.le_succ level)
  parsed rest hrest := by
    have hnext := h.parsed rest (hrest.mono (Nat.le_succ level))
    by_cases hchained : Chained level
    · rw [h.continued hchained (hrest.mono (Nat.le_succ level)), chainFrom_stops hr hrest]
    have hbegins := h.begins.append rest
    rw [Chained] at hchained
    obtain rfl | rfl | rfl : level = 2 ∨ level = 3 ∨ level = 10 := by omega
    · obtain ⟨t, ts, hall⟩ := hbegins.exists_cons
      rw [hall] at hbegins hnext ⊢
      rw [parseLevel, parseNotExpr, onToken_neg (hbegins.keyword_eq_false (by decide))]
      exact hnext
    · have hleft : parseBitwiseOr r (tokens ++ rest) = .ok expr rest := hnext
      rw [parseLevel, parseComparison, bind_ok hleft, comparisonTail_stops hrest]
    · obtain ⟨t, ts, hall⟩ := hbegins.exists_cons
      rw [hall] at hbegins hnext ⊢
      rw [parseLevel, parseUnary, onSome_cons_neg hbegins.unaryOperator_eq_none]
      exact hnext

theorem Written.downTo {level' : Nat} (h : Written r level' tokens expr) (hle : level ≤ level')
    (hle' : level' ≤ 11) : Written r level tokens expr := by
  induction level', hle using Nat.le_induction with
  | base => exact h
  | succ level' hle ih =>
      have hle : level' ≤ 10 := by omega
      exact ih (h.down hr hle) (Nat.le_succ_of_le hle)

end Descent

section Assembly

/-- Whatever level an expression is printed at, the parser of the level gives it back.
Where operators of the level are chained, it goes on with the next one. -/
structure RoundTrips (expr : PlainExpr) : Prop where
  written : ∀ level n, level ≤ 11 → (expr.printAt level).length ≤ n →
    Written (calls n) level (expr.printAt level) expr.toExpr
  continued : ∀ level n, Chained level → (expr.printAt level).length ≤ n →
    ∀ rest, Stops (level + 1) rest →
      parseLevel (calls n) level (expr.printAt level ++ rest) =
        chainFrom (calls n) level expr.toExpr rest

theorem regularCalls (n : Nat) : RegularCalls 0 (calls n) (calls n) :=
  (regular_calls (Nat.le_refl n)).atZero

theorem printAt_le {expr : PlainExpr} {level : Nat} (h : level ≤ expr.level) :
    expr.printAt level = expr.print := by
  rw [PlainExpr.printAt, wrap, if_neg]
  simpa using h

theorem printAt_lt {expr : PlainExpr} {level : Nat} (h : expr.level < level) :
    expr.printAt level = .lParen :: (expr.print ++ [.rParen]) := by
  rw [PlainExpr.printAt, wrap, if_pos]
  simpa using h

theorem stops_rParen (level : Nat) (rest : List Token) : Stops level (.rParen :: rest) :=
  fun _ hc => by cases hc

theorem parsePrimary_lParen (r : Calls) (ts : List Token) :
    parsePrimary r (.lParen :: ts) = parseNested r ts := rfl

/-- Behind a parenthesis there is no `SELECT`. -/
theorem written_nested {n : Nat} {tokens : List Token} {expr : Expr}
    (h : Written (calls n) 0 tokens expr) :
    Written (calls (n + 1)) 11 (.lParen :: (tokens ++ [.rParen])) expr where
  begins := ⟨11, rfl, Nat.le_refl 11⟩
  parsed rest hrest := by
    have hinner : (calls (n + 1)).expr (tokens ++ .rParen :: rest) = .ok expr (.rParen :: rest) :=
      h.parsed _ (stops_rParen 0 rest)
    refine postfix_stops (regularCalls (n + 1)) ?_ hrest
    rw [List.cons_append, List.append_assoc, List.singleton_append, parsePrimary_lParen,
      parseNested]
    have hbegins := h.begins.append (.rParen :: rest)
    obtain ⟨t, ts, hall⟩ := hbegins.exists_cons
    rw [hall] at hbegins hinner ⊢
    rw [ifNext_neg (hbegins.keyword_eq_false (by decide)), bind_ok hinner]
    rfl

theorem operatorLevel_le (op : BinaryOperator) : operatorLevel op ≤ 9 := by
  cases op <;> decide

theorem unaryLevel_le (op : UnaryOperator) : unaryLevel op ≤ 10 := by
  cases op <;> decide

theorem level_le (expr : PlainExpr) : expr.level ≤ 11 := by
  cases expr with
  | binaryOp left op right => exact Nat.le_trans (operatorLevel_le op) (by decide)
  | unaryOp op expr => exact Nat.le_trans (unaryLevel_le op) (by decide)
  | _ => simp [PlainExpr.level]

/-- It is enough to look at an expression without parentheses. -/
theorem roundTrips_of_print {expr : PlainExpr}
    (hwritten : ∀ n, expr.print.length ≤ n →
      Written (calls n) expr.level expr.print expr.toExpr)
    (hcontinued : Chained expr.level → ∀ n, expr.print.length ≤ n →
      ∀ rest, Stops (expr.level + 1) rest →
        parseLevel (calls n) expr.level (expr.print ++ rest) =
          chainFrom (calls n) expr.level expr.toExpr rest) : RoundTrips expr := by
  have hall : ∀ level n, level ≤ 11 → (expr.printAt level).length ≤ n →
      Written (calls n) level (expr.printAt level) expr.toExpr := by
    intro level n hle hlen
    rcases Nat.lt_or_ge expr.level level with hlt | hge
    · rw [printAt_lt hlt] at hlen ⊢
      rw [List.length_cons, List.length_append, List.length_singleton] at hlen
      obtain ⟨m, rfl⟩ : ∃ m, n = m + 1 := ⟨n - 1, by omega⟩
      have hnested := (hwritten m (by omega)).downTo (regularCalls m) (Nat.zero_le _)
        (level_le expr)
      exact (written_nested hnested).downTo (regularCalls (m + 1)) hle (Nat.le_refl 11)
    · rw [printAt_le hge] at hlen ⊢
      exact (hwritten n hlen).downTo (regularCalls n) hge (level_le expr)
  refine ⟨hall, fun level n hchained hlen rest hrest => ?_⟩
  have hle : level ≤ 9 := hchained.1
  rcases Nat.lt_trichotomy level expr.level with hlt | rfl | hgt
  · have hsame : expr.printAt level = expr.printAt (level + 1) := by
      rw [printAt_le (Nat.le_of_lt hlt), printAt_le hlt]
    rw [hsame] at hlen ⊢
    exact (hall (level + 1) n (by omega) hlen).continued hchained hrest
  · rw [printAt_le (Nat.le_refl _)] at hlen ⊢
    exact hcontinued hchained n hlen rest hrest
  · have hsame : expr.printAt level = expr.printAt (level + 1) := by
      rw [printAt_lt hgt, printAt_lt (Nat.lt_succ_of_lt hgt)]
    rw [hsame] at hlen ⊢
    exact (hall (level + 1) n (by omega) hlen).continued hchained hrest

end Assembly

section Leaves

theorem parsePrimary_ident (r : Calls) (s : String) (ts : List Token) :
    parsePrimary r (.ident s :: ts) = parseNamed r s ts := rfl

theorem parseNamed_name (r : Calls) (name : Name) {t : Token} {rest : List Token}
    (ht : t ≠ .lParen) :
    parseNamed r name.val (t :: rest) = qualified name.val (t :: rest) := by
  have harray : toUppercase name.val ≠ "ARRAY" := by
    intro h
    exact name.property (h ▸ by decide)
  rw [parseNamed, onToken_ne ht, if_neg harray]

theorem roundTrips_primary {expr : PlainExpr} (hlevel : expr.level = 11)
    (hbegins : Begins 11 expr.print)
    (hparsed : ∀ n, expr.print.length ≤ n → ∀ rest, Stops 11 rest →
      parsePrimary (calls n) (expr.print ++ rest) = .ok expr.toExpr rest) : RoundTrips expr := by
  refine roundTrips_of_print (fun n hn => ?_) (fun hchained => ?_)
  · rw [hlevel]
    exact ⟨hbegins, fun rest hrest =>
      postfix_stops (regularCalls n) (hparsed n hn rest hrest) hrest⟩
  · rw [hlevel] at hchained
    exact absurd hchained.1 (by decide)

theorem literalOf_word (word : String) (h : word ∈ exprWords) :
    literalOf (.keyword word) =
      if word = "TRUE" then some (.bool true)
      else if word = "FALSE" then some (.bool false)
      else if word = "NULL" then some .null
      else none := by
  rw [literalOf, toUppercase_exprWord word h]

theorem literalOf_literalToken (lit : Literal) : literalOf (literalToken lit) = some lit := by
  cases lit with
  | number n => rfl
  | string s => rfl
  | bool b =>
      cases b with
      | true => exact literalOf_word "TRUE" (by decide)
      | false => exact literalOf_word "FALSE" (by decide)
  | null => exact literalOf_word "NULL" (by decide)

theorem begins_literalToken (lit : Literal) : Begins 11 [literalToken lit] := by
  refine ⟨11, ?_, Nat.le_refl 11⟩
  cases lit with
  | number n => rfl
  | string s => rfl
  | bool b =>
      cases b with
      | true => exact beginLevel_word "TRUE" (by decide)
      | false => exact beginLevel_word "FALSE" (by decide)
  | null => exact beginLevel_word "NULL" (by decide)

theorem roundTrips_literal (lit : Literal) : RoundTrips (.literal lit) := by
  refine roundTrips_primary rfl (begins_literalToken lit) fun n _ rest _ => ?_
  exact onSome_cons_pos (literalOf_literalToken lit)

theorem roundTrips_identifier (name : Name) : RoundTrips (.identifier name) := by
  refine roundTrips_primary rfl ⟨11, rfl, Nat.le_refl 11⟩ fun n _ rest hrest => ?_
  cases rest with
  | nil => exact absurd hrest id
  | cons t rest =>
      have hparen : t ≠ .lParen := by
        rintro rfl
        exact absurd (hrest 11 rfl) (lt_irrefl 11)
      have hdot : t ≠ .dot := by
        rintro rfl
        exact absurd (hrest 11 rfl) (lt_irrefl 11)
      rw [print_identifier, List.singleton_append, parsePrimary_ident, parseNamed_name _ _ hparen,
        qualified, onToken_ne hdot]
      rfl

theorem roundTrips_qualifiedIdentifier (table column : Name) :
    RoundTrips (.qualifiedIdentifier table column) := by
  refine roundTrips_primary rfl ⟨11, rfl, Nat.le_refl 11⟩ fun n _ rest hrest => ?_
  rw [print_qualifiedIdentifier, List.cons_append, parsePrimary_ident, List.cons_append,
    parseNamed_name _ _ (by decide)]
  rfl

/-- No filter and no window stand behind a call. -/
theorem parseCall_args (r : Calls) {name : String} {args : List (FunctionArg Expr)}
    {ts rest : List Token} (hrest : Stops 11 rest)
    (hargs : callArgs r ts = .ok args (.rParen :: rest)) :
    parseCall r name ts = .ok (.function ⟨.single name, args, none, none⟩) rest := by
  cases rest with
  | nil => exact absurd hrest id
  | cons t rest =>
      have hfilter : optionally (keyword "FILTER")
          (parenthesized do expectKeyword "WHERE"; r.expr) (t :: rest) = .ok none (t :: rest) := by
        rw [optionally, onToken_neg (hrest.keyword_eq_false rfl)]
        rfl
      have hover : optionally (keyword "OVER") (parseWindowSpec r) (t :: rest) =
          .ok none (t :: rest) := by
        rw [optionally, onToken_neg (hrest.keyword_eq_false rfl)]
        rfl
      have hclose : expect .rParen (.rParen :: t :: rest) = .ok () (t :: rest) := rfl
      rw [parseCall, bind_ok hargs, bind_ok hclose, bind_ok hfilter, bind_ok hover]
      rfl

theorem parseNamed_lParen (r : Calls) (name : String) (ts : List Token) :
    parseNamed r name (.lParen :: ts) = parseCall r name ts := rfl

theorem roundTrips_callStar (name : Name) : RoundTrips (.callStar name) := by
  refine roundTrips_primary rfl ⟨11, rfl, Nat.le_refl 11⟩ fun n _ rest hrest => ?_
  refine (parsePrimary_ident _ _ _).trans ((parseNamed_lParen _ _ _).trans ?_)
  exact parseCall_args _ hrest rfl

end Leaves

section Operators

theorem stops_of_continueLevel {level level' : Nat} {t : Token} {rest : List Token}
    (h : continueLevel t = some level') (hlt : level' < level) : Stops level (t :: rest) := by
  intro c hc
  rw [h] at hc
  cases hc
  exact hlt

theorem chainOperator_operatorToken {op : BinaryOperator} (h : Chained (operatorLevel op)) :
    chainOperator (operatorLevel op) (operatorToken op) = some op := by
  cases op with
  | or =>
      rw [operatorToken, operatorLevel, chainOperator, orOperator,
        if_pos (toUppercase_exprWord "OR" (by decide))]
  | and =>
      rw [operatorToken, operatorLevel, chainOperator, andOperator,
        if_pos (toUppercase_exprWord "AND" (by decide))]
  | _ => first | rfl | exact absurd rfl h.2.2

theorem leftLevel_of_chained {op : BinaryOperator} (h : Chained (operatorLevel op)) :
    leftLevel op = operatorLevel op := if_neg h.2.2

theorem roundTrips_chained {left right : PlainExpr} {op : BinaryOperator}
    (hchained : Chained (operatorLevel op)) (hleft : RoundTrips left) (hright : RoundTrips right) :
    RoundTrips (.binaryOp left op right) := by
  have hprint := print_binaryOp left right op
  rw [leftLevel_of_chained hchained] at hprint
  have hle := operatorLevel_le op
  have hoperator := chainOperator_operatorToken hchained
  have hcontinued : ∀ n, (PlainExpr.binaryOp left op right).print.length ≤ n →
      ∀ rest, Stops (operatorLevel op + 1) rest →
        parseLevel (calls n) (operatorLevel op) ((PlainExpr.binaryOp left op right).print ++ rest) =
          chainFrom (calls n) (operatorLevel op) (.binaryOp left.toExpr op right.toExpr) rest := by
    intro n hn rest hrest
    rw [hprint, List.length_append, List.length_cons] at hn
    have hwritten := hright.written (operatorLevel op + 1) n (by omega) (by omega)
    rw [hprint, List.append_assoc, List.cons_append, hleft.continued _ n hchained (by omega) _
      (stops_of_continueLevel (continueLevel_of_chainOperator hoperator) (Nat.lt_succ_self _))]
    exact chainFrom_goes (regularCalls n) hoperator (hwritten.parsed rest hrest)
  refine roundTrips_of_print (fun n hn => ⟨?_, fun rest hrest => ?_⟩) fun _ => hcontinued
  · rw [hprint, List.length_append, List.length_cons] at hn
    rw [hprint]
    exact (hleft.written (operatorLevel op) n (by omega) (by omega)).begins.append _
  · exact (hcontinued n hn rest (hrest.mono (Nat.le_succ _))).trans
      (chainFrom_stops (regularCalls n) hrest)

/-- An operand, and the rest of an expression that stands alone at its level. -/
theorem roundTrips_comparison {expr operand : PlainExpr} {t : Token} {tail : List Token}
    (hlevel : expr.level = 3) (hprint : expr.print = operand.printAt 4 ++ t :: tail)
    (ht : continueLevel t = some 3) (hoperand : RoundTrips operand)
    (htail : ∀ n, tail.length < n → ∀ rest, Stops 3 rest →
      comparisonTail (calls n) operand.toExpr (t :: (tail ++ rest)) = .ok expr.toExpr rest) :
    RoundTrips expr := by
  refine roundTrips_of_print (fun n hn => ?_) (fun hchained => ?_)
  · rw [hprint, List.length_append, List.length_cons] at hn
    have hwritten := hoperand.written 4 n (by decide) (by omega)
    rw [hlevel, hprint]
    refine ⟨(hwritten.begins.mono (by decide)).append _, fun rest hrest => ?_⟩
    have hleft : parseBitwiseOr (calls n) (operand.printAt 4 ++ t :: (tail ++ rest)) =
        .ok operand.toExpr (t :: (tail ++ rest)) :=
      hwritten.parsed _ (stops_of_continueLevel ht (by decide))
    rw [parseLevel, List.append_assoc, List.cons_append, parseComparison, bind_ok hleft]
    exact htail n (by omega) rest hrest
  · rw [hlevel] at hchained
    exact absurd rfl hchained.2.2

theorem continueLevel_operatorToken {op : BinaryOperator} (h : operatorLevel op = 3) :
    continueLevel (operatorToken op) = some 3 := by
  cases op with
  | like => exact continueLevel_word "LIKE" (by decide)
  | iLike => exact continueLevel_word "ILIKE" (by decide)
  | _ => first | rfl | cases h

/-- No `ANY` or `SOME` stands behind the operator. -/
theorem comparisonTail_comparison (r : Calls) {left right : Expr} {t : Token} {op : BinaryOperator}
    {ts rest : List Token} (ht : comparisonOperator t = some op) (hbegins : Begins 4 ts)
    (hright : parseBitwiseOr r ts = .ok right rest) :
    comparisonTail r left (t :: ts) = .ok (.binaryOp left op right) rest := by
  cases ts with
  | nil => exact absurd hbegins id
  | cons t' ts =>
      rw [comparisonTail, onSome_cons_pos ht, onSome_cons_neg (hbegins.quantified_eq_none op left),
        bind_ok hright]
      rfl

theorem likeOperator_word (word : String) (h : word ∈ exprWords) :
    likeOperator (.keyword word) =
      if word = "LIKE" then some .like else if word = "ILIKE" then some .iLike else none := by
  rw [likeOperator, toUppercase_exprWord word h]

theorem comparisonTail_like (r : Calls) {left right : Expr} {word : String} {op : BinaryOperator}
    {ts rest : List Token} (hlike : likeOperator (.keyword word) = some op)
    (hin : keyword "IN" (.keyword word) = false)
    (hbetween : keyword "BETWEEN" (.keyword word) = false)
    (hright : parseBitwiseOr r ts = .ok right rest) :
    comparisonTail r left (.keyword word :: ts) = .ok (.binaryOp left op right) rest := by
  have hcomparison : comparisonOperator (.keyword word) = none := rfl
  rw [comparisonTail, onSome_cons_neg hcomparison, onToken_neg hin, onToken_neg hbetween,
    onSome_cons_pos hlike, bind_ok hright]
  rfl

theorem comparisonTail_operator (r : Calls) {left right : Expr} {op : BinaryOperator}
    (hop : operatorLevel op = 3) {ts rest : List Token} (hbegins : Begins 4 ts)
    (hright : parseBitwiseOr r ts = .ok right rest) :
    comparisonTail r left (operatorToken op :: ts) = .ok (.binaryOp left op right) rest := by
  cases op with
  | like =>
      exact comparisonTail_like r (likeOperator_word "LIKE" (by decide))
        (keyword_other _ _ (by decide) (by decide))
        (keyword_other _ _ (by decide) (by decide)) hright
  | iLike =>
      exact comparisonTail_like r (likeOperator_word "ILIKE" (by decide))
        (keyword_other _ _ (by decide) (by decide))
        (keyword_other _ _ (by decide) (by decide)) hright
  | equals | notEquals | lessThan | greaterThan | lessOrEqual | greaterOrEqual =>
      exact comparisonTail_comparison r rfl hbegins hright
  | _ => cases hop

theorem roundTrips_compared {left right : PlainExpr} {op : BinaryOperator}
    (hop : operatorLevel op = 3) (hleft : RoundTrips left) (hright : RoundTrips right) :
    RoundTrips (.binaryOp left op right) := by
  have hprint : (PlainExpr.binaryOp left op right).print =
      left.printAt 4 ++ operatorToken op :: right.printAt 4 := by
    rw [print_binaryOp, leftLevel, if_pos hop, hop]
  refine roundTrips_comparison hop hprint (continueLevel_operatorToken hop) hleft
    fun n hn rest hrest => ?_
  have hwritten := hright.written 4 n (by decide) (by omega)
  exact comparisonTail_operator _ hop (hwritten.begins.append rest)
    (hwritten.parsed rest (hrest.mono (by decide)))

theorem roundTrips_binaryOp {left right : PlainExpr} (op : BinaryOperator)
    (hleft : RoundTrips left) (hright : RoundTrips right) :
    RoundTrips (.binaryOp left op right) := by
  by_cases hop : operatorLevel op = 3
  · exact roundTrips_compared hop hleft hright
  · refine roundTrips_chained ⟨operatorLevel_le op, ?_, hop⟩ hleft hright
    cases op <;> decide

theorem roundTrips_between {expr low high : PlainExpr} (hexpr : RoundTrips expr)
    (hlow : RoundTrips low) (hhigh : RoundTrips high) :
    RoundTrips (.between expr low high) := by
  refine roundTrips_comparison rfl (print_between expr low high)
    (continueLevel_word "BETWEEN" (by decide)) hexpr fun n hn rest hrest => ?_
  rw [List.length_append, List.length_cons] at hn
  have hlevel : continueLevel (.keyword "AND") = some 1 := continueLevel_word "AND" (by decide)
  have hlow := (hlow.written 4 n (by decide) (by omega)).parsed
    (.keyword "AND" :: (high.printAt 4 ++ rest)) (stops_of_continueLevel hlevel (by decide))
  have hhigh := (hhigh.written 4 n (by decide) (by omega)).parsed rest (hrest.mono (by decide))
  have hand : expectKeyword "AND" (.keyword "AND" :: (high.printAt 4 ++ rest)) =
      .ok () (high.printAt 4 ++ rest) := expectKeyword_word "AND" (by decide) _
  have hcomparison : comparisonOperator (.keyword "BETWEEN") = none := rfl
  rw [comparisonTail, onSome_cons_neg hcomparison,
    onToken_neg (keyword_other "BETWEEN" "IN" (by decide) (by decide)),
    onToken_pos (keyword_self "BETWEEN" (by decide)), List.append_assoc, List.cons_append,
    parseBetween]
  exact (bind_ok hlow).trans ((bind_ok hand).trans ((bind_ok hhigh).trans rfl))

theorem comparisonTail_is (r : Calls) (left : Expr) (ts : List Token) :
    comparisonTail r left (.keyword "IS" :: ts) = parseIs left ts := by
  have hcomparison : comparisonOperator (.keyword "IS") = none := rfl
  have hlike : likeOperator (.keyword "IS") = none := likeOperator_word "IS" (by decide)
  rw [comparisonTail, onSome_cons_neg hcomparison,
    onToken_neg (keyword_other "IS" "IN" (by decide) (by decide)),
    onToken_neg (keyword_other "IS" "BETWEEN" (by decide) (by decide)), onSome_cons_neg hlike,
    onToken_pos (keyword_self "IS" (by decide))]

theorem roundTrips_isNull {expr : PlainExpr} (hexpr : RoundTrips expr) :
    RoundTrips (.isNull expr) := by
  refine roundTrips_comparison rfl (print_isNull expr) (continueLevel_word "IS" (by decide)) hexpr
    fun n hn rest hrest => ?_
  rw [comparisonTail_is, List.singleton_append, parseIs,
    onToken_pos (keyword_self "NULL" (by decide))]
  rfl

theorem roundTrips_isNotNull {expr : PlainExpr} (hexpr : RoundTrips expr) :
    RoundTrips (.isNotNull expr) := by
  refine roundTrips_comparison rfl (print_isNotNull expr)
    (continueLevel_word "IS" (by decide)) hexpr fun n hn rest hrest => ?_
  rw [comparisonTail_is, List.cons_append, List.singleton_append, parseIs,
    onToken_neg (keyword_other "NOT" "NULL" (by decide) (by decide)),
    bind_ok (expectKeyword_word "NOT" (by decide) _),
    bind_ok (expectKeyword_word "NULL" (by decide) _)]
  rfl

theorem parseLevel_unaryToken (r : Calls) {op : UnaryOperator} {expr : Expr}
    {ts rest : List Token} (h : parseLevel r (operandLevel op) ts = .ok expr rest) :
    parseLevel r (unaryLevel op) (unaryToken op :: ts) = .ok (.unaryOp op expr) rest := by
  have hunary : ∀ {t : Token}, unaryOperator t = some op → parsePostfix r ts = .ok expr rest →
      parseUnary r (t :: ts) = .ok (.unaryOp op expr) rest := by
    intro t ht hpostfix
    rw [parseUnary, onSome_cons_pos ht, bind_ok hpostfix]
    rfl
  cases op with
  | not =>
      have hcomparison : parseComparison r ts = .ok expr rest := h
      rw [unaryLevel, unaryToken, parseLevel, parseNotExpr,
        onToken_pos (keyword_self "NOT" (by decide)),
        bind_ok hcomparison]
      rfl
  | plus | minus | bitwiseNot => exact hunary rfl h

theorem roundTrips_unaryOp {expr : PlainExpr} (op : UnaryOperator) (hexpr : RoundTrips expr) :
    RoundTrips (.unaryOp op expr) := by
  have hprint := print_unaryOp expr op
  have hoperand : operandLevel op = unaryLevel op + 1 := by cases op <;> rfl
  have hle := unaryLevel_le op
  refine roundTrips_of_print (fun n hn => ?_) (fun hchained => ?_)
  · rw [hprint, List.length_cons] at hn
    have hwritten := hexpr.written (operandLevel op) n (by omega) (by omega)
    rw [hprint]
    refine ⟨⟨unaryLevel op, ?_, Nat.le_refl _⟩, fun rest hrest => ?_⟩
    · cases op with
      | not => exact beginLevel_word "NOT" (by decide)
      | _ => rfl
    · have hstops : unaryLevel op ≤ operandLevel op := by omega
      exact parseLevel_unaryToken _ (hwritten.parsed rest (hrest.mono hstops))
  · obtain ⟨hle, hne, -⟩ := hchained
    rw [PlainExpr.level] at hle hne
    cases op with
    | not => exact absurd rfl hne
    | plus | minus | bitwiseNot => exact absurd hle (by decide)

end Operators

section Lists

/-- The items of a list up to a token that goes on with no list. -/
structure ListRoundTrips (list : PlainList) : Prop where
  begins : Begins 0 list.print
  parsed : ∀ n, list.print.length ≤ n → ∀ rest, ∀ acc,
    itemsFrom (· = .comma) (parseExpr (calls n)) acc (list.print ++ .rParen :: rest) =
      .ok (acc ++ list.toExprs) (.rParen :: rest)

theorem stops_of_none {t : Token} (h : continueLevel t = none) (level : Nat) (rest : List Token) :
    Stops level (t :: rest) := by
  intro c hc
  rw [h] at hc
  cases hc

/-- An expression with no parentheses around it. -/
theorem RoundTrips.parseExpr {expr : PlainExpr} (h : RoundTrips expr) {n : Nat}
    (hn : expr.print.length ≤ n) {t : Token} (ht : continueLevel t = none) (rest : List Token) :
    ExprParser.parseExpr (calls n) (expr.print ++ t :: rest) = .ok expr.toExpr (t :: rest) := by
  have hprint : expr.printAt 0 = expr.print := printAt_le (Nat.zero_le _)
  have hwritten := h.written 0 n (by decide) (by rw [hprint]; exact hn)
  rw [hprint] at hwritten
  exact hwritten.parsed _ (stops_of_none ht 0 rest)

theorem RoundTrips.begins {expr : PlainExpr} (h : RoundTrips expr) : Begins 0 expr.print := by
  have hprint : expr.printAt 0 = expr.print := printAt_le (Nat.zero_le _)
  have hwritten := h.written 0 _ (by decide) (Nat.le_refl _)
  rw [hprint] at hwritten
  exact hwritten.begins

theorem regular_item (n : Nat) :
    Regular .eof 0 1 (ExprParser.parseExpr (calls n)) (ExprParser.parseExpr (calls n)) :=
  (regular_parseExpr (regularCalls n)).atZero

theorem listRoundTrips_one {expr : PlainExpr} (hexpr : RoundTrips expr) :
    ListRoundTrips (.one expr) where
  begins := hexpr.begins
  parsed n hn rest acc := by
    have hparsed := hexpr.parseExpr hn (show continueLevel .rParen = none from rfl) rest
    have hmore : moreItems (· = .comma) (ExprParser.parseExpr (calls n)) (acc ++ [expr.toExpr])
        (.rParen :: rest) = .ok (.inr (acc ++ [expr.toExpr])) (.rParen :: rest) := rfl
    rw [print_one, itemsFrom, bind_ok hparsed,
      iterate_eq (advances_moreItems (regular_item n) rfl), hmore]
    rfl

theorem listRoundTrips_cons {expr : PlainExpr} {list : PlainList} (hexpr : RoundTrips expr)
    (hlist : ListRoundTrips list) : ListRoundTrips (.cons expr list) where
  begins := by
    rw [print_cons]
    exact hexpr.begins.append _
  parsed n hn rest acc := by
    rw [print_cons, List.length_append, List.length_cons] at hn
    have hparsed := hexpr.parseExpr (n := n) (by omega) (show continueLevel .comma = none from rfl)
      (list.print ++ .rParen :: rest)
    rw [print_cons, List.append_assoc, List.cons_append, itemsFrom, bind_ok hparsed,
      iterate_moreItems (regular_item n) rfl (by rfl), hlist.parsed n (by omega) rest,
      List.append_assoc]
    rfl

/-- The calls of the next level are the parsers of the one before. -/
theorem ListRoundTrips.commaSeparated {list : PlainList} (h : ListRoundTrips list) {n : Nat}
    (hn : list.print.length < n) (rest : List Token) :
    TokenStream.commaSeparated (calls n).expr (list.print ++ .rParen :: rest) =
      .ok list.toExprs (.rParen :: rest) := by
  obtain ⟨m, rfl⟩ : ∃ m, n = m + 1 := ⟨n - 1, by omega⟩
  exact h.parsed m (by omega) rest []

theorem roundTrips_call (name : Name) {args : PlainList} (hargs : ListRoundTrips args) :
    RoundTrips (.call name args) := by
  have hprint := print_call args name
  refine roundTrips_primary rfl ?_ fun n hn rest hrest => ?_
  · rw [hprint]
    exact ⟨11, rfl, Nat.le_refl 11⟩
  rw [hprint, List.length_cons, List.length_cons, List.length_append, List.length_singleton] at hn
  rw [hprint, List.cons_append, parsePrimary_ident, List.cons_append, parseNamed_lParen,
    List.append_assoc, List.singleton_append]
  refine parseCall_args _ hrest ?_
  have hlist := hargs.commaSeparated (n := n) (by omega) rest
  have hbegins := hargs.begins.append (.rParen :: rest)
  obtain ⟨t, ts, hall⟩ := hbegins.exists_cons
  rw [hall] at hbegins hlist ⊢
  have hdistinct : flag (keyword "DISTINCT") (t :: ts) = .ok false (t :: ts) := by
    rw [flag, onToken_neg (hbegins.keyword_eq_false (by decide))]
    rfl
  rw [callArgs, bind_ok hdistinct, onToken_ne (hbegins.ne rfl), bind_ok hlist]
  rfl

theorem roundTrips_inList {expr : PlainExpr} {list : PlainList} (hexpr : RoundTrips expr)
    (hlist : ListRoundTrips list) : RoundTrips (.inList expr list) := by
  refine roundTrips_comparison rfl (print_inList expr list)
    (continueLevel_word "IN" (by decide)) hexpr fun n hn rest hrest => ?_
  rw [List.length_cons, List.length_append, List.length_singleton] at hn
  have hlist' := hlist.commaSeparated (n := n) (by omega) rest
  have hbegins := hlist.begins.append (.rParen :: rest)
  have hcomparison : comparisonOperator (.keyword "IN") = none := rfl
  rw [comparisonTail, onSome_cons_neg hcomparison, onToken_pos (keyword_self "IN" (by decide)),
    List.cons_append, List.append_assoc, List.singleton_append, parseIn, onToken_self]
  obtain ⟨t, ts, hall⟩ := hbegins.exists_cons
  rw [hall] at hbegins hlist' ⊢
  rw [ifNext_neg (hbegins.keyword_eq_false (by decide)), bind_ok hlist']
  rfl

end Lists

section Cases

theorem RoundTrips.expr {expr : PlainExpr} (h : RoundTrips expr) {n : Nat}
    (hn : expr.print.length < n) {t : Token} (ht : continueLevel t = none) (rest : List Token) :
    (calls n).expr (expr.print ++ t :: rest) = .ok expr.toExpr (t :: rest) := by
  obtain ⟨m, rfl⟩ : ∃ m, n = m + 1 := ⟨n - 1, by omega⟩
  exact h.parseExpr (by omega) ht rest

def OptionRoundTrips : PlainOption → Prop
  | .none => True
  | .some expr => RoundTrips expr

def WhensRoundTrips (whens : PlainWhens) : Prop :=
  ∀ n, whens.print.length < n → ∀ acc t rest, keyword "WHEN" t = false → continueLevel t = none →
    iterate (whenStep (calls n)) acc (whens.print ++ t :: rest) =
      .ok (acc ++ whens.toClauses) (t :: rest)

theorem exists_print_whens (whens : PlainWhens) : ∃ ts, whens.print = .keyword "WHEN" :: ts := by
  cases whens with
  | one condition result => exact ⟨_, print_when condition result⟩
  | cons condition result whens => exact ⟨_, print_whens condition result whens⟩

theorem whenClause_print {condition result : PlainExpr} (hcondition : RoundTrips condition)
    (hresult : RoundTrips result) {n : Nat}
    (hn : condition.print.length + result.print.length < n) {t : Token}
    (ht : continueLevel t = none) (rest : List Token) :
    whenClause (calls n) (condition.print ++ .keyword "THEN" :: (result.print ++ t :: rest)) =
      .ok ⟨condition.toExpr, result.toExpr⟩ (t :: rest) := by
  have hlevel : continueLevel (.keyword "THEN") = none := continueLevel_word "THEN" (by decide)
  have hcondition := hcondition.expr (n := n) (by omega) hlevel (result.print ++ t :: rest)
  have hresult := hresult.expr (n := n) (by omega) ht rest
  have hthen : expectKeyword "THEN" (.keyword "THEN" :: (result.print ++ t :: rest)) =
      .ok () (result.print ++ t :: rest) := expectKeyword_word "THEN" (by decide) _
  rw [whenClause, bind_ok hcondition, bind_ok hthen, bind_ok hresult]
  rfl

theorem iterate_whenStep {r : Calls} (hr : RegularCalls 0 r r) {acc : List (WhenClause Expr)}
    {clause : WhenClause Expr} {ts rest : List Token} (h : whenClause r ts = .ok clause rest) :
    iterate (whenStep r) acc (.keyword "WHEN" :: ts) =
      iterate (whenStep r) (acc ++ [clause]) rest := by
  rw [iterate_eq (advances_whenStep hr), whenStep, onToken_pos (keyword_self "WHEN" (by decide)),
    bind_ok h]
  rfl

theorem iterate_whenStep_stops {r : Calls} (hr : RegularCalls 0 r r)
    {acc : List (WhenClause Expr)} {t : Token} {rest : List Token}
    (ht : keyword "WHEN" t = false) :
    iterate (whenStep r) acc (t :: rest) = .ok acc (t :: rest) := by
  rw [iterate_eq (advances_whenStep hr), whenStep, onToken_neg ht]
  rfl

theorem whensRoundTrips_one {condition result : PlainExpr} (hcondition : RoundTrips condition)
    (hresult : RoundTrips result) : WhensRoundTrips (.one condition result) := by
  intro n hn acc t rest ht hlevel
  rw [print_when, List.length_cons, List.length_append, List.length_cons] at hn
  rw [print_when, List.cons_append, List.append_assoc, List.cons_append,
    iterate_whenStep (regularCalls n) (whenClause_print hcondition hresult (by omega) hlevel rest),
    iterate_whenStep_stops (regularCalls n) ht]
  rfl

theorem whensRoundTrips_cons {condition result : PlainExpr} {whens : PlainWhens}
    (hcondition : RoundTrips condition) (hresult : RoundTrips result)
    (hwhens : WhensRoundTrips whens) : WhensRoundTrips (.cons condition result whens) := by
  intro n hn acc t rest ht hlevel
  rw [print_whens, List.length_cons, List.length_append, List.length_cons,
    List.length_append] at hn
  obtain ⟨ts, hts⟩ := exists_print_whens whens
  have hnext := hwhens n (by omega) (acc ++ [⟨condition.toExpr, result.toExpr⟩]) t rest ht hlevel
  have hclause := whenClause_print hcondition hresult (n := n) (by omega)
      (continueLevel_word "WHEN" (by decide))
    (ts ++ t :: rest)
  have hwhensTokens : whens.print ++ t :: rest = .keyword "WHEN" :: (ts ++ t :: rest) := by
    rw [hts, List.cons_append]
  rw [← hwhensTokens] at hclause
  rw [print_whens, List.cons_append, List.append_assoc, List.cons_append, List.append_assoc,
    iterate_whenStep (regularCalls n) hclause, hnext,
    List.append_assoc]
  rfl

theorem exists_print_else (elseClause : PlainOption) :
    ∃ t ts, elseClause.printElse = t :: ts ∧ keyword "WHEN" t = false ∧
      continueLevel t = none := by
  cases elseClause with
  | none =>
      exact ⟨.keyword "END", [], rfl, keyword_other "END" "WHEN" (by decide) (by decide),
        continueLevel_word "END" (by decide)⟩
  | some expr =>
      exact ⟨.keyword "ELSE", _, printElse_some expr,
        keyword_other "ELSE" "WHEN" (by decide) (by decide),
        continueLevel_word "ELSE" (by decide)⟩

theorem optionally_else {elseClause : PlainOption} (h : OptionRoundTrips elseClause) {n : Nat}
    (hn : elseClause.printElse.length ≤ n) (rest : List Token) :
    optionally (keyword "ELSE") (calls n).expr (elseClause.printElse ++ rest) =
      .ok elseClause.toExpr (.keyword "END" :: rest) := by
  cases elseClause with
  | none =>
      exact onToken_neg (keyword_other "END" "ELSE" (by decide) (by decide))
  | some expr =>
      rw [printElse_some, List.length_cons, List.length_append] at hn
      have hlevel : continueLevel (.keyword "END") = none := continueLevel_word "END" (by decide)
      have hexpr := RoundTrips.expr h (n := n) (by omega) hlevel rest
      rw [printElse_some, List.cons_append, List.append_assoc, List.singleton_append, optionally,
        onToken_pos (keyword_self "ELSE" (by decide)), bind_ok hexpr]
      rfl

/-- The rest of a case, behind its clauses. -/
theorem case_end {operand : Option Expr} {clauses : List (WhenClause Expr)}
    {elseClause : PlainOption} (helse : OptionRoundTrips elseClause) {n : Nat}
    (hn : elseClause.printElse.length ≤ n) (rest : List Token) :
    (do
      let elseClause ← optionally (keyword "ELSE") (calls n).expr
      expectKeyword "END"
      pure (.case operand clauses elseClause) : SqlParser Expr) (elseClause.printElse ++ rest) =
      .ok (.case operand clauses elseClause.toExpr) rest := by
  rw [bind_ok (optionally_else helse hn rest), bind_ok (expectKeyword_word "END" (by decide) _)]
  rfl

/-- The operand, and the clauses that are parsed before the loop; the loop goes on as if
it had parsed them. -/
theorem caseHead_print {operand : PlainOption} (hoperand : OptionRoundTrips operand) {n : Nat}
    (hn : operand.print.length < n) {ts rest : List Token} {clauses : List (WhenClause Expr)}
    (hclauses : iterate (whenStep (calls n)) [] (.keyword "WHEN" :: ts) = .ok clauses rest) :
    ∃ first mid, caseHead (calls n) (operand.print ++ .keyword "WHEN" :: ts) =
        .ok (operand.toExpr, first) mid ∧
      iterate (whenStep (calls n)) first mid = .ok clauses rest := by
  cases operand with
  | none =>
      rw [iterate_eq (advances_whenStep (regularCalls n)), whenStep,
        onToken_pos (keyword_self "WHEN" (by decide)),
        bind_apply] at hclauses
      cases hfirst : whenClause (calls n) ts with
      | ok clause mid =>
          rw [hfirst] at hclauses
          refine ⟨[clause], mid, ?_, hclauses⟩
          refine (onToken_pos (keyword_self "WHEN" (by decide))).trans ?_
          rw [bind_ok hfirst]
          rfl
      | error e =>
          rw [hfirst] at hclauses
          cases hclauses
      | unfinished =>
          rw [hfirst] at hclauses
          cases hclauses
  | some expr =>
      have hn : expr.print.length < n := hn
      have hexpr := RoundTrips.expr hoperand hn (continueLevel_word "WHEN" (by decide)) ts
      have hbegins := (RoundTrips.begins hoperand).append (.keyword "WHEN" :: ts)
      refine ⟨[], _, ?_, hclauses⟩
      change caseHead (calls n) (expr.print ++ _) = .ok (some expr.toExpr, []) _
      obtain ⟨t, ts', hall⟩ := hbegins.exists_cons
      rw [hall] at hbegins hexpr ⊢
      rw [caseHead, onToken_neg (hbegins.keyword_eq_false (by decide)), bind_ok hexpr]
      rfl

theorem parseCase_print {operand : PlainOption} {whens : PlainWhens} {elseClause : PlainOption}
    (hoperand : OptionRoundTrips operand) (hwhens : WhensRoundTrips whens)
    (helse : OptionRoundTrips elseClause) {n : Nat}
    (hn : operand.print.length + (whens.print.length + elseClause.printElse.length) < n)
    (rest : List Token) :
    parseCase (calls n) (operand.print ++ (whens.print ++ (elseClause.printElse ++ rest))) =
      .ok (.case operand.toExpr whens.toClauses elseClause.toExpr) rest := by
  obtain ⟨t, ts, helseTokens, ht, hlevel⟩ := exists_print_else elseClause
  have hclauses := hwhens n (by omega) [] t (ts ++ rest) ht hlevel
  have hrest : t :: (ts ++ rest) = elseClause.printElse ++ rest := by
    rw [helseTokens, List.cons_append]
  obtain ⟨ts', hts'⟩ := exists_print_whens whens
  rw [hrest, hts', List.cons_append] at hclauses
  obtain ⟨first, mid, hhead, hclauses⟩ := caseHead_print hoperand (by omega) hclauses
  rw [hts', List.cons_append, parseCase, bind_ok hhead, bind_ok hclauses]
  exact case_end helse (by omega) rest

theorem roundTrips_case {operand : PlainOption} {whens : PlainWhens} {elseClause : PlainOption}
    (hoperand : OptionRoundTrips operand) (hwhens : WhensRoundTrips whens)
    (helse : OptionRoundTrips elseClause) :
    RoundTrips (.case operand whens elseClause) := by
  have hprint := print_case whens operand elseClause
  have hliteral : literalOf (.keyword "CASE") = none := literalOf_word "CASE" (by decide)
  refine roundTrips_primary rfl ?_ fun n hn rest hrest => ?_
  · rw [hprint]
    exact ⟨11, beginLevel_word "CASE" (by decide), Nat.le_refl 11⟩
  · rw [hprint, List.length_cons, List.length_append, List.length_append] at hn
    rw [hprint, List.cons_append, List.append_assoc, List.append_assoc, parsePrimary,
      onSome_cons_neg hliteral, onToken_ne (by decide),
      onToken_pos (keyword_self "CASE" (by decide))]
    exact parseCase_print hoperand hwhens helse (by omega) rest

end Cases

section Expressions

mutual

theorem roundTrips : ∀ expr : PlainExpr, RoundTrips expr
  | .literal lit => roundTrips_literal lit
  | .identifier name => roundTrips_identifier name
  | .qualifiedIdentifier table column => roundTrips_qualifiedIdentifier table column
  | .binaryOp left op right => roundTrips_binaryOp op (roundTrips left) (roundTrips right)
  | .unaryOp op expr => roundTrips_unaryOp op (roundTrips expr)
  | .between expr low high =>
      roundTrips_between (roundTrips expr) (roundTrips low) (roundTrips high)
  | .inList expr list => roundTrips_inList (roundTrips expr) (listRoundTrips list)
  | .isNull expr => roundTrips_isNull (roundTrips expr)
  | .isNotNull expr => roundTrips_isNotNull (roundTrips expr)
  | .case operand whens elseClause =>
      roundTrips_case (optionRoundTrips operand) (whensRoundTrips whens)
        (optionRoundTrips elseClause)
  | .call name args => roundTrips_call name (listRoundTrips args)
  | .callStar name => roundTrips_callStar name

theorem listRoundTrips : ∀ list : PlainList, ListRoundTrips list
  | .one expr => listRoundTrips_one (roundTrips expr)
  | .cons expr list => listRoundTrips_cons (roundTrips expr) (listRoundTrips list)

theorem optionRoundTrips : ∀ option : PlainOption, OptionRoundTrips option
  | .none => trivial
  | .some expr => roundTrips expr

theorem whensRoundTrips : ∀ whens : PlainWhens, WhensRoundTrips whens
  | .one condition result => whensRoundTrips_one (roundTrips condition) (roundTrips result)
  | .cons condition result whens =>
      whensRoundTrips_cons (roundTrips condition) (roundTrips result) (whensRoundTrips whens)

end

/-- A printed expression is parsed to itself, up to the token behind it. -/
theorem parseExpr_print (expr : PlainExpr) {t : Token}
    (ht : t ∈ [Token.eof, .rParen, .comma, .semicolon]) (rest : List Token) {fuel : Nat}
    (hfuel : expr.print.length ≤ fuel) :
    parseExpr (calls fuel) (expr.print ++ t :: rest) = .ok expr.toExpr (t :: rest) := by
  have hlevel : ∀ t ∈ [Token.eof, .rParen, .comma, .semicolon], continueLevel t = none := by
    decide
  exact (roundTrips expr).parseExpr hfuel (hlevel t ht) rest

/-- The expression `(1 + 2) * -3`. -/
def sampleExpr : PlainExpr :=
  .binaryOp (.binaryOp (.literal (.number "1")) .plus (.literal (.number "2"))) .multiply
    (.unaryOp .minus (.literal (.number "3")))

theorem parseExpr_print_sample :
    parseExpr (calls 8)
        ([.lParen, .number "1", .plus, .number "2", .rParen, .star, .minus, .number "3"] ++
          [.semicolon, .eof]) =
      .ok sampleExpr.toExpr [.semicolon, .eof] :=
  parseExpr_print sampleExpr (t := .semicolon) (by decide) [.eof] (by decide)

end Expressions

end PostgressRs.Sql.ExprRoundTrip
