import PostgressRs.Sql.SelectPrinter
import PostgressRs.Sql.StatementParser

/-!
Selects are read back as they are written, with all that is nested in them.
-/

namespace PostgressRs.Sql.SelectRoundTrip

open PostgressRs.Lib.ReadBack
open PostgressRs.Lib.TokenParser
open PostgressRs.Sql.Ast
open PostgressRs.Sql.ExprParser
open PostgressRs.Sql.ExprPrinter
open PostgressRs.Sql.ExprRegularity
open PostgressRs.Sql.ExprRoundTrip
open PostgressRs.Sql.FromClauseRoundTrip
open PostgressRs.Sql.OrderTexts
open PostgressRs.Sql.SelectParser
open PostgressRs.Sql.SelectPrinter
open PostgressRs.Sql.StatementParser
open PostgressRs.Sql.StatementRegularity
open PostgressRs.Sql.StatementTermination
open PostgressRs.Sql.Tokenizer
open PostgressRs.Sql.TokenStream
open PostgressRs.Sql.TokenText

section Words

/-- What may stand behind a select, and behind each of its clauses. -/
def afterSelect : List Token := [.eof, .rParen, .semicolon, .keyword "RETURNING"]

def afterLocking : List Token :=
  .keyword "UNION" :: .keyword "INTERSECT" :: .keyword "EXCEPT" :: afterSelect

def afterOffset : List Token := .keyword "FOR" :: afterLocking

def afterLimit : List Token := .keyword "OFFSET" :: afterOffset

def afterOrder : List Token := .keyword "LIMIT" :: afterLimit

def afterHaving : List Token := .keyword "ORDER" :: afterOrder

def afterGroup : List Token := .keyword "HAVING" :: afterHaving

def afterWhere : List Token := .keyword "GROUP" :: afterGroup

def afterFrom : List Token := .keyword "WHERE" :: afterWhere

def afterItems : List Token := .keyword "FROM" :: afterFrom

/-- The words of the clauses. -/
def selectWords : List String :=
  ["SELECT", "DISTINCT", "ON", "AS", "FROM", "USING", "WHERE", "GROUP", "BY", "HAVING", "ORDER",
    "LIMIT", "ALL", "OFFSET", "FOR", "UPDATE", "NO", "KEY", "UNION", "INTERSECT", "EXCEPT",
    "RETURNING", "INSERT", "INTO", "VALUES", "CONFLICT", "DO", "NOTHING", "SET", "DELETE", "ASC",
    "DESC", "NULLS"]

/-- The words of the clauses, and what else parts of a statement may end before. -/
def endTokens : List Token := [.comma, .rParen, .semicolon, .eof] ++ selectWords.map .keyword

theorem toUppercase_selectWord : ∀ word ∈ selectWords, toUppercase word = word := by
  decide +kernel

theorem keyword_selectWord (word : String) (h : word ∈ selectWords) :
    keyword word (.keyword word) = true :=
  decide_eq_true (toUppercase_selectWord word h)

theorem expectKeyword_selectWord (word : String) (h : word ∈ selectWords) (rest : List Token) :
    expectKeyword word (.keyword word :: rest) = .ok () rest :=
  expectKeyword_ok (keyword_selectWord word h)

theorem expect_self (token : Token) (rest : List Token) :
    expect token (token :: rest) = .ok () rest :=
  onToken_self token rest

theorem keyword_selectWord_ne {word other : String} (h : word ∈ selectWords) (hne : word ≠ other) :
    keyword other (.keyword word) = false :=
  keyword_ne (keyword_selectWord word h) hne

theorem endToken_cases {t : Token} (h : t ∈ endTokens) :
    t ∈ [.comma, .rParen, .semicolon, .eof] ∨ ∃ word ∈ selectWords, t = .keyword word := by
  rcases List.mem_append.mp h with hmark | hword
  · exact Or.inl hmark
  · obtain ⟨word, hmem, rfl⟩ := List.mem_map.mp hword
    exact Or.inr ⟨word, hmem, rfl⟩

theorem keyword_endToken {t : Token} (h : t ∈ endTokens) {word : String} (hne : t ≠ .keyword word) :
    keyword word t = false := by
  rcases endToken_cases h with hmark | ⟨other, hother, rfl⟩
  · have hall : ∀ t ∈ [.comma, .rParen, .semicolon, .eof], keyword word t = false := by
      simp only [List.forall_mem_cons]
      exact ⟨rfl, rfl, rfl, rfl, fun t ht => absurd ht List.not_mem_nil⟩
    exact hall t hmark
  · exact keyword_selectWord_ne hother fun heq => hne (heq ▸ rfl)

/-- A word that none of the tokens is. -/
theorem keyword_behind {tokens : List Token} (word : String) (hends : ∀ t ∈ tokens, t ∈ endTokens)
    (hne : .keyword word ∉ tokens) : ∀ t ∈ tokens, keyword word t = false := by
  intro t ht
  refine keyword_endToken (hends t ht) ?_
  rintro rfl
  exact hne ht

/-- No expression goes on with one of them. -/
theorem continueLevel_endToken : ∀ t ∈ endTokens, continueLevel t = none := by
  intro t ht
  rcases endToken_cases ht with hmark | ⟨word, hword, rfl⟩
  · revert t
    decide
  · have hlevel : ∀ word ∈ selectWords, wordLevel word = none := by decide
    rw [continueLevel, toUppercase_selectWord word hword, hlevel word hword]

theorem setOperators_selectWord {word : String} (h : word ∈ selectWords) :
    setOperators (.keyword word) =
      if word = "UNION" then some (.union, .unionAll)
      else if word = "INTERSECT" then some (.intersect, .intersectAll)
      else if word = "EXCEPT" then some (.except, .exceptAll)
      else none := by
  rw [setOperators, toUppercase_selectWord word h]

theorem joinWord_endToken : ∀ t ∈ endTokens, joinWord t = none := by
  intro t ht
  rcases endToken_cases ht with hmark | ⟨word, hword, rfl⟩
  · revert t
    decide
  · have hjoin : ∀ word ∈ selectWords, word ∉ ["JOIN", "INNER", "LEFT", "RIGHT", "FULL", "CROSS",
        "NATURAL", "LATERAL"] := by decide
    rw [joinWord, toUppercase_selectWord word hword, if_neg (hjoin word hword)]

theorem identText_endToken : ∀ t ∈ endTokens, identText t = none := by decide

theorem endTokens_afterItems : ∀ t ∈ .keyword "SET" :: .comma :: afterItems, t ∈ endTokens := by
  decide

end Words

section Clauses

variable {α β : Type} {E F : Token → Prop} {word : String} {p : SqlParser α}
  {print : β → List Token} {value : β → α}

theorem reads_clause (hword : word ∈ selectWords) (hE : ∀ t, E t → keyword word t = false)
    {clause : Option β} (hclause : ∀ b ∈ clause, Reads E p (print b) (value b)) :
    Reads E (optionally (keyword word) p) (printClause word print clause) (clause.map value) := by
  cases clause with
  | none => exact reads_onToken_neg (leads_nil hE) (reads_pure none)
  | some b => exact reads_onToken_pos (keyword_selectWord word hword) ((hclause b rfl).map some)

theorem leads_clause (print : β → List Token) (hword : F (.keyword word))
    (hE : ∀ t, E t → F t) (clause : Option β) :
    Leads E F (printClause word print clause) := by
  cases clause with
  | none => exact leads_nil hE
  | some b => exact leads_cons hword _

theorem reads_listBy (hword : word ∈ selectWords) (hregular : Regular .eof 0 1 p p)
    (hE : ∀ t, E t → keyword word t = false ∧ t ≠ .comma) {items : List β}
    (hitems : ∀ b ∈ items, Reads (fun t => E t ∨ t = .comma) p (print b) (value b)) :
    Reads E (listBy word p) (printBy word print items) (items.map value) := by
  cases items with
  | nil => exact reads_onToken_neg (leads_nil fun t ht => (hE t ht).1) (reads_pure [])
  | cons first more =>
      refine reads_onToken_pos (keyword_selectWord word hword)
        (Reads.cons_bind (expectKeyword_selectWord "BY" (by decide)) ?_)
      exact reads_sepBy hregular rfl (decide_eq_true rfl)
        (fun t ht => decide_eq_false (hE t ht).2) hitems

theorem length_lt_printBy {items : List β} {item : β} (h : item ∈ items) :
    (print item).length < (printBy word print items).length := by
  cases items with
  | nil => cases h
  | cons first more =>
      have hle := length_le_printSep Token.comma print h
      rw [printBy, List.length_cons, List.length_cons]
      omega

theorem leads_listBy (print : β → List Token) (hword : F (.keyword word))
    (hE : ∀ t, E t → F t) (items : List β) :
    Leads E F (printBy word print items) := by
  cases items with
  | nil => exact leads_nil hE
  | cons first more => exact leads_cons hword _

end Clauses

section Expressions

variable {E : Token → Prop} {n : Nat}

theorem reads_expr (plain : PlainExpr) (hn : plain.print.length < n) :
    Reads (fun t => continueLevel t = none) (calls n).expr plain.print plain.toExpr :=
  fun _ rest ht => (roundTrips plain).expr hn ht rest

/-- Not a token that can only stand before an expression. -/
structure BeginsPlain (t : Token) : Prop where
  word : ∀ word, beginWord word = none → keyword word t = false
  token : ∀ t', beginLevel t' = none → t ≠ t'

theorem leads_expr (plain : PlainExpr) : Leads E BeginsPlain plain.print := by
  intro t rest _
  have hbegins := (roundTrips plain).begins.append (t :: rest)
  obtain ⟨t', rest', htext⟩ := hbegins.exists_cons
  rw [htext] at hbegins
  refine ⟨t', rest', htext, ⟨fun word hword => hbegins.keyword_eq_false ?_, fun _ => hbegins.ne⟩⟩
  rw [hword]
  intro b hb
  cases hb

theorem regular_expr (n : Nat) : Regular .eof 0 1 (calls n).expr (calls n).expr :=
  (regularCalls n).expr

end Expressions

section Items

variable {E : Token → Prop} {n : Nat}

/-- What may stand behind an item of a select. -/
structure EndsItem (t : Token) : Prop where
  level : continueLevel t = none
  asWord : keyword "AS" t = false
  ident : identText t = none

theorem endsItem_of_endToken {t : Token} (h : t ∈ endTokens) (hne : t ≠ .keyword "AS") :
    EndsItem t :=
  ⟨continueLevel_endToken t h, keyword_endToken h hne, identText_endToken t h⟩

theorem endsItem_afterItems : ∀ t ∈ .comma :: afterItems, EndsItem t := by
  have hne : ∀ t ∈ .comma :: afterItems, t ≠ .keyword "AS" := by decide
  exact fun t ht =>
    endsItem_of_endToken (endTokens_afterItems t (List.mem_cons_of_mem _ ht)) (hne t ht)

theorem EndsItem.ne_dot {t : Token} (h : EndsItem t) : t ≠ .dot := by
  rintro rfl
  exact absurd h.level (by decide)

theorem reads_ident (name : Name) : Reads E expectIdent [.ident name.val] name.val :=
  fun _ _ _ => rfl

theorem printAlias_bare (name : Name) : printAlias (some ⟨false, name⟩) = [.ident name.val] := rfl

theorem printAlias_as (name : Name) :
    printAlias (some ⟨true, name⟩) = [.keyword "AS", .ident name.val] :=
  congrArg (· :: [Token.ident name.val]) (wordToken_clauseWord "AS" (by decide))

/-- An alias does not go on with an expression before it. -/
theorem leads_alias (aliasName : Option WrittenAlias) (hE : ∀ t, E t → continueLevel t = none) :
    Leads E (fun t => continueLevel t = none) (printAlias aliasName) := by
  cases aliasName with
  | none => exact leads_nil hE
  | some written =>
      obtain ⟨asWord, name⟩ := written
      cases asWord with
      | false =>
          rw [printAlias_bare]
          refine leads_cons ?_ _
          rfl
      | true =>
          rw [printAlias_as]
          refine leads_cons ?_ _
          exact continueLevel_endToken _ (by decide)

theorem reads_selectItem (item : PlainItem) (hn : item.print.length < n) :
    Reads EndsItem (selectItem (calls n)) item.print item.toItem := by
  cases item with
  | star =>
      refine reads_onToken_pos (decide_eq_true rfl)
        (reads_onToken_neg (leads_nil ?_) (reads_pure _))
      exact fun t ht => decide_eq_false ht.ne_dot
  | tableStar table =>
      exact reads_onToken_pos (decide_eq_true rfl)
        (reads_onToken_pos (decide_eq_true rfl) ((reads_ident table).map _))
  | expr plain aliasName =>
      rw [PlainItem.print, List.length_append] at hn
      have hstar : Leads EndsItem (fun t => decide (t = .star) = false)
          (plain.print ++ printAlias aliasName) :=
        ((leads_expr plain).append_any _).mono fun t ht => decide_eq_false (ht.token .star rfl)
      refine reads_onToken_neg hstar
        ((reads_expr plain (n := n) (by omega)).bind
          (leads_alias aliasName fun t ht => ht.level) ?_)
      cases aliasName with
      | none =>
          exact reads_onToken_neg (leads_nil fun t ht => ht.asWord)
            (reads_onSome_neg (leads_nil fun t ht => ht.ident) (reads_pure _))
      | some written =>
          obtain ⟨asWord, name⟩ := written
          cases asWord with
          | false =>
              rw [printAlias_bare]
              exact reads_onToken_other rfl (reads_onSome_pos rfl (reads_pure _))
          | true =>
              rw [printAlias_as]
              exact reads_onToken_pos (keyword_selectWord _ (by decide)) ((reads_ident name).map _)

end Items

section Lists

variable {α : Type} {E : Token → Prop} {n : Nat}

theorem reads_parenthesized {p : SqlParser α} {tokens : List Token} {a : α}
    (hp : Reads (· = .rParen) p tokens a) :
    Reads E (parenthesized p) (.lParen :: (tokens ++ [.rParen])) a := by
  intro t rest _
  have hread := hp .rParen (t :: rest) rfl
  rw [List.cons_append, List.append_assoc, List.singleton_append]
  exact parenthesized_ok hread

theorem reads_exprs (first : PlainExpr) (more : List PlainExpr)
    (hn : (printSep .comma PlainExpr.print first more).length < n)
    (hE : ∀ t, E t → continueLevel t = none ∧ t ≠ .comma) :
    Reads E (commaSeparated (calls n).expr) (printSep .comma PlainExpr.print first more)
      (first.toExpr :: more.map PlainExpr.toExpr) := by
  refine reads_sepBy (regular_expr n) rfl (decide_eq_true rfl)
    (fun t ht => decide_eq_false (hE t ht).2) fun plain hplain => ?_
  refine (reads_expr plain (Nat.lt_of_le_of_lt (length_le_printSep _ _ hplain) hn)).mono ?_
  rintro t (ht | rfl)
  · exact (hE t ht).1
  · rfl

/-- Before the items of a select. -/
structure BeginsItem (t : Token) : Prop where
  distinct : keyword "DISTINCT" t = false
  on : keyword "ON" t = false

theorem leads_items (first : PlainItem) (more : List PlainItem) :
    Leads E BeginsItem (printSep .comma PlainItem.print first more) := by
  have hstar : BeginsItem .star := ⟨rfl, rfl⟩
  cases first with
  | star => exact leads_cons hstar _
  | tableStar table => exact leads_cons hstar _
  | expr plain aliasName =>
      refine Leads.append_any (Leads.append_any ?_ _) _
      exact (leads_expr plain).mono fun t ht => ⟨ht.word _ rfl, ht.word _ rfl⟩

theorem reads_distinct (distinctKind : PlainDistinct) (hn : distinctKind.print.length < n) :
    Reads BeginsItem (distinctClause (calls n)) distinctKind.print distinctKind.toClause := by
  cases distinctKind with
  | all => exact reads_onToken_neg (leads_nil fun t ht => ht.distinct) (reads_pure _)
  | distinct =>
      exact reads_onToken_pos (keyword_selectWord _ (by decide))
        (reads_onToken_neg (leads_nil fun t ht => ht.on) (reads_pure _))
  | distinctOn first more =>
      rw [PlainDistinct.print, List.length_cons, List.length_cons, List.length_cons,
        List.length_append] at hn
      have hexprs := reads_exprs (E := (· = .rParen)) (n := n) first more (by omega)
        (by rintro t rfl; decide)
      exact reads_onToken_pos (keyword_selectWord _ (by decide))
        (reads_onToken_pos (keyword_selectWord _ (by decide))
          ((reads_parenthesized hexprs).map DistinctClause.distinctOn))

theorem reads_selectList (first : PlainItem) (more : List PlainItem)
    (hn : (printSep .comma PlainItem.print first more).length < n) :
    Reads (· ∈ afterItems) (parseSelectList (calls n)) (printSep .comma PlainItem.print first more)
      (first.toItem :: more.map PlainItem.toItem) := by
  have hcomma : ∀ t ∈ afterItems, decide (t = .comma) = false := by decide
  refine reads_sepBy (regular_selectItem (regularCalls n)).atZero rfl (decide_eq_true rfl) hcomma
    fun item hitem => ?_
  refine (reads_selectItem item (Nat.lt_of_le_of_lt (length_le_printSep _ _ hitem) hn)).mono ?_
  rintro t (ht | rfl)
  · exact endsItem_afterItems t (List.mem_cons_of_mem _ ht)
  · exact endsItem_afterItems .comma List.mem_cons_self

/-- What may stand behind an item of an order list. -/
def afterOrderItem : List Token := .comma :: afterOrder

theorem endTokens_afterOrderItem :
    ∀ t ∈ .keyword "ASC" :: .keyword "DESC" :: .keyword "NULLS" :: afterOrderItem,
      t ∈ endTokens := by decide

/-- Of an index as well as of an order list. -/
theorem reads_ordered (item : PlainOrderItem) (hn : item.print.length < n) {α : Type}
    (f : Expr → SortDirection → NullsOrder → α) :
    Reads (· ∈ afterOrderItem) (do
        let expr ← (calls n).expr
        let direction ← sortDirection
        let nulls ← nullsOrder
        pure (f expr direction nulls)) item.print
      (f item.expr.toExpr item.direction item.nulls) := by
  have hlevel : ∀ t ∈ .keyword "ASC" :: .keyword "DESC" :: .keyword "NULLS" :: afterOrderItem,
      continueLevel t = none := fun t ht =>
    continueLevel_endToken t (endTokens_afterOrderItem t ht)
  have hasc : ∀ t ∈ .keyword "NULLS" :: afterOrderItem, keyword "ASC" t = false :=
    keyword_behind "ASC" (fun t ht => endTokens_afterOrderItem t
      (List.mem_cons_of_mem _ (List.mem_cons_of_mem _ ht))) (by decide)
  have hdesc : ∀ t ∈ .keyword "NULLS" :: afterOrderItem, keyword "DESC" t = false :=
    keyword_behind "DESC" (fun t ht => endTokens_afterOrderItem t
      (List.mem_cons_of_mem _ (List.mem_cons_of_mem _ ht))) (by decide)
  have hnulls : ∀ t ∈ afterOrderItem, keyword "NULLS" t = false :=
    keyword_behind "NULLS" (by decide) (by decide)
  rw [PlainOrderItem.print, List.length_append] at hn
  have hleadNulls : Leads (· ∈ afterOrderItem) (· ∈ .keyword "NULLS" :: afterOrderItem)
      (nullsWords item.nulls) := by
    cases item.nulls with
    | first | last => exact leads_cons List.mem_cons_self _
    | default => exact leads_nil fun t ht => List.mem_cons_of_mem _ ht
  have hleadDirection : Leads (· ∈ .keyword "NULLS" :: afterOrderItem)
      (· ∈ .keyword "ASC" :: .keyword "DESC" :: .keyword "NULLS" :: afterOrderItem)
      (directionWords item.direction) := by
    cases item.direction with
    | asc => exact leads_cons List.mem_cons_self _
    | desc => exact leads_cons (List.mem_cons_of_mem _ List.mem_cons_self) _
    | default => exact leads_nil fun t ht => List.mem_cons_of_mem _ (List.mem_cons_of_mem _ ht)
  have hexpr := (reads_expr item.expr (n := n) (by omega)).mono hlevel
  have hdirection : Reads (· ∈ .keyword "NULLS" :: afterOrderItem) sortDirection
      (directionWords item.direction) item.direction :=
    fun t rest ht => sortDirection_words item.direction (hasc t ht) (hdesc t ht)
  have hlast : Reads (· ∈ afterOrderItem) nullsOrder (nullsWords item.nulls) item.nulls :=
    fun t rest ht => nullsOrder_words item.nulls (hnulls t ht)
  exact hexpr.bind (hleadDirection.append hleadNulls) (hdirection.bind hleadNulls (hlast.map _))

theorem reads_orderItem (item : PlainOrderItem) (hn : item.print.length < n) :
    Reads (· ∈ afterOrderItem) (orderByItem (calls n)) item.print item.toItem :=
  reads_ordered item hn OrderByItem.mk

theorem reads_limit (limit : PlainLimit) (hn : limit.print.length < n) :
    Reads (fun t => continueLevel t = none) (limitClause (calls n)) limit.print limit.toClause := by
  cases limit with
  | all => exact reads_onToken_pos (keyword_selectWord _ (by decide)) (reads_pure _)
  | expr plain =>
      refine reads_onToken_neg ?_ ((reads_expr plain hn).map _)
      exact (leads_expr plain).mono fun t ht => ht.word _ rfl

end Lists

section Locking

def lockingStep (locking : List LockingClause) :
    SqlParser (List LockingClause ⊕ List LockingClause) :=
  onToken (keyword "FOR") (do let clause ← lockingClause; pure (.inl (locking ++ [clause])))
    (pure (.inr locking))

theorem advances_lockingStep (locking : List LockingClause) :
    Advances .eof 0 (lockingStep locking) (lockingStep locking) :=
  Advances.onToken rfl (regular_lockingClause.bind fun _ => regular_pure _) (advances_done _)

theorem leads_locking (locking : List PlainLocking) :
    Leads (· ∈ afterLocking) (· ∈ afterOffset) (locking.flatMap PlainLocking.print) := by
  cases locking with
  | nil => exact leads_nil fun t ht => List.mem_cons_of_mem _ ht
  | cons clause locking =>
      rw [List.flatMap_cons]
      refine Leads.append_any ?_ _
      cases clause with
      | forUpdate | forNoKeyUpdate => exact leads_cons List.mem_cons_self _

theorem reads_lockingStep (clause : PlainLocking) (acc : List LockingClause) {E : Token → Prop} :
    Reads E (lockingStep acc) clause.print (.inl (acc ++ [clause.toClause])) := by
  have hupdate : ∀ rest, lockingClause (.keyword "UPDATE" :: rest) = .ok .forUpdate rest :=
    fun rest => onToken_pos (keyword_selectWord "UPDATE" (by decide))
  have hfor := keyword_selectWord "FOR" (by decide)
  cases clause with
  | forUpdate =>
      refine reads_onToken_pos hfor ?_
      exact Reads.cons_bind hupdate (reads_pure _)
  | forNoKeyUpdate =>
      have hother : keyword "UPDATE" (.keyword "NO") = false :=
        keyword_selectWord_ne (by decide) (by decide)
      have hnoKey : Reads E lockingClause [.keyword "NO", .keyword "KEY", .keyword "UPDATE"]
          .forNoKeyUpdate :=
        reads_onToken_other hother (reads_onToken_pos (keyword_selectWord _ (by decide))
          (Reads.cons_bind (expectKeyword_selectWord "KEY" (by decide))
            (Reads.cons_bind (expectKeyword_selectWord "UPDATE" (by decide)) (reads_pure _))))
      exact reads_onToken_pos hfor (hnoKey.map _)

theorem reads_lockingClauses (locking : List PlainLocking) :
    Reads (· ∈ afterLocking) lockingClauses (locking.flatMap PlainLocking.print)
      (locking.map PlainLocking.toClause) := by
  have hfor : ∀ t ∈ afterLocking, keyword "FOR" t = false :=
    keyword_behind "FOR" (by decide) (by decide)
  have hrounds : ∀ (locking : List PlainLocking) (acc : List LockingClause),
      Rounds (· ∈ afterLocking) lockingStep acc (locking.flatMap PlainLocking.print)
        (acc ++ locking.map PlainLocking.toClause) := by
    intro locking
    induction locking with
    | nil =>
        intro acc
        rw [List.map_nil, List.append_nil]
        exact .stop (reads_onToken_neg (leads_nil hfor) (reads_pure _))
    | cons clause locking ih =>
        intro acc
        have hrest := ih (acc ++ [clause.toClause])
        rw [List.append_assoc] at hrest
        exact .go (reads_lockingStep clause acc) (leads_locking locking) hrest
  exact (hrounds locking []).reads advances_lockingStep

end Locking

section Tables

variable {E : Token → Prop} {n : Nat}

/-- What may stand behind the constraint of a join. -/
structure EndsConstraint (t : Token) : Prop extends EndsItem t where
  onWord : keyword "ON" t = false
  usingWord : keyword "USING" t = false

/-- What may stand behind a from clause. -/
structure EndsFrom (t : Token) : Prop extends EndsConstraint t where
  join : joinWord t = none

theorem endsConstraint_of_endsJoin {t : Token} (h : EndsJoin t) : EndsConstraint t where
  level := h.continueLevel_eq_none
  asWord := h.keyword_eq_false (by decide)
  ident := h.identText_eq_none
  onWord := h.keyword_eq_false (by decide)
  usingWord := h.keyword_eq_false (by decide)

theorem endsConstraint_of_endToken {t : Token} (h : t ∈ endTokens)
    (hne : t ∉ [.keyword "AS", .keyword "ON", .keyword "USING"]) : EndsConstraint t := by
  simp only [List.mem_cons, List.not_mem_nil, or_false, not_or] at hne
  obtain ⟨has, hon, husing⟩ := hne
  exact ⟨endsItem_of_endToken h has, keyword_endToken h hon, keyword_endToken h husing⟩

theorem endsFrom_afterFrom : ∀ t ∈ .keyword "SET" :: afterFrom, EndsFrom t := by
  have hends : ∀ t ∈ .keyword "SET" :: afterFrom, t ∈ endTokens := by decide
  have hne : ∀ t ∈ .keyword "SET" :: afterFrom,
      t ∉ [.keyword "AS", .keyword "ON", .keyword "USING"] := by decide
  exact fun t ht => ⟨endsConstraint_of_endToken (hends t ht) (hne t ht),
    joinWord_endToken t (hends t ht)⟩

theorem reads_tableAlias (aliasName : Option WrittenAlias) :
    Reads EndsItem tableAlias (printAlias aliasName) (aliasText aliasName) :=
  fun _ rest ht => tableAlias_print aliasName ht.asWord ht.ident rest

theorem reads_constraint (constraint : PlainConstraint) (hn : constraint.print.length < n) :
    Reads EndsConstraint (joinConstraint (calls n)) constraint.print constraint.toConstraint := by
  cases constraint with
  | on condition =>
      rw [PlainConstraint.print, List.length_cons] at hn
      have hcondition := (reads_expr condition (n := n) (by omega)).mono
        fun t (ht : EndsConstraint t) => ht.level
      exact reads_onToken_pos (keyword_selectWord _ (by decide)) (hcondition.map _)
  | usingColumns first more =>
      have hother : keyword "ON" (.keyword "USING") = false :=
        keyword_selectWord_ne (by decide) (by decide)
      have hcolumns : Reads (· = .rParen) (commaSeparated expectIdent)
          (printSep .comma (fun name : Name => [.ident name.val]) first more)
          (first.val :: more.map Subtype.val) := by
        refine reads_sepBy regular_name rfl (decide_eq_true rfl) ?_ fun name _ => reads_ident name
        rintro t rfl
        rfl
      exact reads_onToken_other hother (reads_onToken_pos (keyword_selectWord _ (by decide))
        ((reads_parenthesized hcolumns).map _))
  | none =>
      exact reads_onToken_neg (leads_nil fun t ht => ht.onWord)
        (reads_onToken_neg (leads_nil fun t ht => ht.usingWord) (reads_pure _))

theorem leads_constraint (constraint : PlainConstraint) :
    Leads EndsConstraint EndsItem constraint.print := by
  have hitem : ∀ t ∈ [.keyword "ON", .keyword "USING"], EndsItem t := by
    have hends : ∀ t ∈ [.keyword "ON", .keyword "USING"], t ∈ endTokens ∧ t ≠ .keyword "AS" := by
      decide
    exact fun t ht => endsItem_of_endToken (hends t ht).1 (hends t ht).2
  cases constraint with
  | on condition => exact leads_cons (hitem (.keyword "ON") (by decide)) _
  | usingColumns first more => exact leads_cons (hitem (.keyword "USING") (by decide)) _
  | none => exact leads_nil fun t ht => ht.toEndsItem

theorem reads_named (name : DottedName) :
    Reads (· ≠ .dot) (parseTableRef (calls n)) name.print name.toTable :=
  fun _ rest ht => parseTableRef_print (calls n) name ht rest

theorem exists_print_select (select : PlainSelect) :
    ∃ tokens, select.print = .keyword "SELECT" :: tokens := by
  cases select
  exact ⟨_, rfl⟩

/-- A select between parentheses. -/
theorem reads_nested {select : PlainSelect}
    (hselect : Reads (· ∈ afterSelect) (calls n).select select.print select.toSelect)
    {α : Type} (f : SelectStatement → α) :
    Reads E (do
        let query ← (calls n).select
        expect .rParen
        pure (f query)) (select.print ++ [.rParen]) (f select.toSelect) := by
  have hparen : Leads E (· ∈ afterSelect) [.rParen] := by
    refine leads_cons ?_ _
    decide
  exact hselect.bind hparen (Reads.cons_bind (expect_self .rParen) (reads_pure _))

theorem reads_subquery {select : PlainSelect}
    (hselect : Reads (· ∈ afterSelect) (calls n).select select.print select.toSelect) :
    Reads E (parseTableRef (calls n)) (PlainTable.subquery select).print
      (PlainTable.subquery select).toTable := by
  obtain ⟨tokens, hprint⟩ := exists_print_select select
  have hnested := reads_nested (E := E) hselect (TableRef.subquery (Q := SelectStatement))
  rw [PlainTable.print]
  refine reads_onToken_pos (decide_eq_true rfl) ?_
  rw [hprint, List.cons_append] at hnested ⊢
  exact reads_ifNext_pos (keyword_selectWord "SELECT" (by decide)) hnested

theorem leads_aliasAnd (aliasName : Option WrittenAlias) {tokens : List Token}
    (hlead : Leads E EndsItem tokens) :
    Leads E (fun t => t ≠ .dot) (printAlias aliasName ++ tokens) := by
  refine Leads.append (M := EndsItem) ?_ hlead
  cases aliasName with
  | none => exact leads_nil fun t ht => ht.ne_dot
  | some written =>
      obtain ⟨asWord, name⟩ := written
      cases asWord with
      | false =>
          rw [printAlias_bare]
          refine leads_cons ?_ _
          simp
      | true =>
          rw [printAlias_as]
          refine leads_cons ?_ _
          simp

/-- A table and its alias, before what `f` reads. -/
theorem reads_tableAnd {β : Type} {f : TableRef SelectStatement → Option String → SqlParser β}
    {table : PlainTable} (aliasName : Option WrittenAlias) {tokens : List Token} {b : β}
    (htable : Reads (· ≠ .dot) (parseTableRef (calls n)) table.print table.toTable)
    (hlead : Leads E EndsItem tokens)
    (hf : Reads E (f table.toTable (aliasText aliasName)) tokens b) :
    Reads E (parseTableRef (calls n) >>= fun table => tableAlias >>= fun aliasName =>
      f table aliasName) (table.print ++ (printAlias aliasName ++ tokens)) b :=
  htable.bind (leads_aliasAnd aliasName hlead) ((reads_tableAlias aliasName).bind hlead hf)

theorem reads_joinStep (joinType : PlainJoinType) {table : PlainTable}
    (aliasName : Option WrittenAlias) (constraint : PlainConstraint)
    (hconstraint : constraint.print.length < n)
    (htable : Reads (· ≠ .dot) (parseTableRef (calls n)) table.print table.toTable)
    (acc : List (Join Expr SelectStatement)) :
    Reads EndsConstraint (joinStep (calls n) acc)
      (joinType.val.print ++ (table.print ++ (printAlias aliasName ++ constraint.print)))
      (.inl (acc ++ [⟨table.toTable, aliasText aliasName, joinType.val.toJoinType,
        constraint.toConstraint⟩])) := by
  obtain ⟨t, word, tail, hbegins⟩ := exists_beginsJoin joinType.val
  rw [hbegins.print, List.cons_append]
  refine reads_onSome_pos hbegins.begins ?_
  have htype : Reads (fun _ => True) (parseJoinType word) tail joinType.val.toJoinType :=
    fun t rest _ => hbegins.parsed joinType.property (t :: rest)
  have htail := reads_tableAnd aliasName
    (f := fun table aliasName => joinConstraint (calls n) >>= fun constraint =>
      pure (⟨table, aliasName, joinType.val.toJoinType, constraint⟩ : Join Expr SelectStatement))
    htable (leads_constraint constraint) ((reads_constraint constraint hconstraint).map _)
  have hjoin := htype.bind (f := fun joinType => parseTableRef (calls n) >>= fun table =>
    tableAlias >>= fun aliasName => joinConstraint (calls n) >>= fun constraint =>
      pure (⟨table, aliasName, joinType, constraint⟩ : Join Expr SelectStatement))
    (leads_any EndsConstraint _) htail
  exact hjoin.map _

end Tables

section Selects

variable {E : Token → Prop} {n : Nat}

theorem leads_joins (joins : PlainJoins) : Leads EndsFrom EndsConstraint joins.print := by
  cases joins with
  | nil => exact leads_nil fun t ht => ht.toEndsConstraint
  | cons joinType table aliasName constraint joins =>
      obtain ⟨t, word, tail, hbegins⟩ := exists_beginsJoin joinType.val
      have hends : EndsConstraint t := endsConstraint_of_endsJoin (Or.inr (by
        rw [hbegins.begins]
        rfl))
      rw [PlainJoins.print, hbegins.print]
      exact leads_cons hends _

theorem reads_fromClause {table : PlainTable} {aliasName : Option WrittenAlias}
    {joins : PlainJoins}
    (htable : Reads (· ≠ .dot) (parseTableRef (calls n)) table.print table.toTable)
    (hjoins : ∀ acc, Rounds EndsFrom (joinStep (calls n)) acc joins.print
      ⟨acc ++ joins.toJoins⟩) :
    Reads EndsFrom (parseFromClause (calls n))
      (table.print ++ (printAlias aliasName ++ joins.print))
      ⟨⟨table.toTable, aliasText aliasName, .inner, .none⟩ :: joins.toJoins⟩ := by
  rw [parseFromClause_eq]
  refine reads_tableAnd aliasName (f := fun table aliasName =>
    iterate (joinStep (calls n)) [⟨table, aliasName, .inner, .none⟩]) htable ?_ ?_
  · exact (leads_joins joins).mono fun t ht => ht.toEndsItem
  · exact (hjoins _).reads advances_joinStep

def operationStep (r : Calls) (operations : List (SetOperation SelectStatement)) :
    SqlParser (List (SetOperation SelectStatement) ⊕ List (SetOperation SelectStatement)) :=
  onSome setOperators
    (fun operators => do
      let all ← flag (keyword "ALL")
      let select ← parseSelectBody r
      pure (.inl (operations ++ [⟨if all then operators.2 else operators.1, select⟩])))
    (pure (.inr operations))

theorem advances_operationStep (operations : List (SetOperation SelectStatement)) :
    Advances .eof 0 (operationStep (calls n) operations) (operationStep (calls n) operations) :=
  Advances.onSome rfl
    (fun _ => Regular.after (regular_flag rfl) fun _ =>
      (regular_parseSelectBody (regularCalls n)).bind fun _ => regular_pure _)
    (advances_done _)

theorem reads_operationStep (operator : SetOperator) {tokens : List Token}
    {select : SelectStatement}
    (hbody : Reads E (parseSelectBody (calls n)) tokens select)
    (hlead : Leads E (fun t => keyword "ALL" t = false) tokens)
    (acc : List (SetOperation SelectStatement)) :
    Reads E (operationStep (calls n) acc) (operatorWords operator ++ tokens)
      (.inl (acc ++ [⟨operator, select⟩])) := by
  have hnot : Reads (fun t => keyword "ALL" t = false) (flag (keyword "ALL")) [] false :=
    reads_onToken_neg (leads_nil fun t ht => ht) (reads_pure false)
  have hall : ∀ rest, flag (keyword "ALL") (.keyword "ALL" :: rest) = .ok true rest :=
    fun rest => onToken_pos (keyword_selectWord "ALL" (by decide))
  have hunion : setOperators (.keyword "UNION") = some (.union, .unionAll) :=
    setOperators_selectWord (by decide)
  have hintersect : setOperators (.keyword "INTERSECT") = some (.intersect, .intersectAll) :=
    setOperators_selectWord (by decide)
  have hexcept : setOperators (.keyword "EXCEPT") = some (.except, .exceptAll) :=
    setOperators_selectWord (by decide)
  cases operator with
  | union => exact reads_onSome_pos hunion (hnot.bind hlead (hbody.map _))
  | unionAll => exact reads_onSome_pos hunion (Reads.cons_bind hall (hbody.map _))
  | intersect => exact reads_onSome_pos hintersect (hnot.bind hlead (hbody.map _))
  | intersectAll => exact reads_onSome_pos hintersect (Reads.cons_bind hall (hbody.map _))
  | except => exact reads_onSome_pos hexcept (hnot.bind hlead (hbody.map _))
  | exceptAll => exact reads_onSome_pos hexcept (Reads.cons_bind hall (hbody.map _))

theorem leads_operations (operations : PlainOperations) :
    Leads (· ∈ afterSelect) (· ∈ afterLocking) operations.print := by
  have hoperator (operator : SetOperator) (tokens : List Token) :
      Leads (· ∈ afterSelect) (· ∈ afterLocking) (operatorWords operator ++ tokens) := by
    refine Leads.append_any ?_ _
    cases operator with
    | union | unionAll => exact leads_cons List.mem_cons_self _
    | intersect | intersectAll => exact leads_cons (List.mem_cons_of_mem _ List.mem_cons_self) _
    | except | exceptAll =>
        exact leads_cons (List.mem_cons_of_mem _ (List.mem_cons_of_mem _ List.mem_cons_self)) _
  cases operations with
  | nil =>
      exact leads_nil fun t ht =>
        List.mem_cons_of_mem _ (List.mem_cons_of_mem _ (List.mem_cons_of_mem _ ht))
  | last operator select => exact hoperator operator _
  | cons operator select operations => exact hoperator operator _

theorem leads_from (fromClause : PlainFrom) :
    Leads (· ∈ afterFrom) (· ∈ afterItems) fromClause.print := by
  cases fromClause with
  | none => exact leads_nil fun t ht => List.mem_cons_of_mem _ ht
  | some table aliasName joins => exact leads_cons List.mem_cons_self _

theorem reads_exprClause (tokens : List Token) (word : String) (hword : word ∈ selectWords)
    (hends : ∀ t ∈ tokens, t ∈ endTokens) (hne : .keyword word ∉ tokens)
    (clause : Option PlainExpr) (hn : (printClause word PlainExpr.print clause).length ≤ n) :
    Reads (· ∈ tokens) (optionally (keyword word) (calls n).expr)
      (printClause word PlainExpr.print clause) (clause.map PlainExpr.toExpr) := by
  refine reads_clause hword (keyword_behind word hends hne) ?_
  rintro plain rfl
  exact (reads_expr plain hn).mono fun t ht => continueLevel_endToken t (hends t ht)

theorem reads_exprsBy (tokens : List Token) (word : String) (hword : word ∈ selectWords)
    (hends : ∀ t ∈ tokens, t ∈ endTokens) (hne : .keyword word ∉ tokens) (hcomma : .comma ∉ tokens)
    (items : List PlainExpr) (hn : (printBy word PlainExpr.print items).length ≤ n) :
    Reads (· ∈ tokens) (listBy word (calls n).expr) (printBy word PlainExpr.print items)
      (items.map PlainExpr.toExpr) := by
  have hstop : ∀ t ∈ tokens, keyword word t = false ∧ t ≠ .comma := fun t ht =>
    ⟨keyword_behind word hends hne t ht, fun heq => hcomma (heq ▸ ht)⟩
  refine reads_listBy hword (regular_expr n) hstop fun plain hplain => ?_
  refine (reads_expr plain (Nat.lt_of_lt_of_le (length_lt_printBy hplain) hn)).mono ?_
  rintro t (ht | rfl)
  · exact continueLevel_endToken t (hends t ht)
  · rfl

theorem reads_orderBy (items : List PlainOrderItem)
    (hn : (printBy "ORDER" PlainOrderItem.print items).length ≤ n) :
    Reads (· ∈ afterOrder) (listBy "ORDER" (orderByItem (calls n)))
      (printBy "ORDER" PlainOrderItem.print items) (items.map PlainOrderItem.toItem) := by
  have hword : ∀ t ∈ afterOrder, keyword "ORDER" t = false :=
    keyword_behind "ORDER" (by decide) (by decide)
  have hcomma : ∀ t ∈ afterOrder, t ≠ .comma := by decide
  refine reads_listBy (by decide) (regular_orderByItem (regularCalls n)).atZero
    (fun t ht => ⟨hword t ht, hcomma t ht⟩) fun item hitem => ?_
  refine (reads_orderItem item (Nat.lt_of_lt_of_le (length_lt_printBy hitem) hn)).mono ?_
  rintro t (ht | rfl)
  · exact List.mem_cons_of_mem _ ht
  · exact List.mem_cons_self

theorem reads_limitClause (limit : Option PlainLimit)
    (hn : (printClause "LIMIT" PlainLimit.print limit).length ≤ n) :
    Reads (· ∈ afterLimit) (optionally (keyword "LIMIT") (limitClause (calls n)))
      (printClause "LIMIT" PlainLimit.print limit) (limit.map PlainLimit.toClause) := by
  have hends : ∀ t ∈ afterLimit, t ∈ endTokens := by decide
  refine reads_clause (by decide) (keyword_behind "LIMIT" hends (by decide)) ?_
  rintro plain rfl
  exact (reads_limit plain hn).mono fun t ht => continueLevel_endToken t (hends t ht)

theorem reads_parseSelect {distinctKind : PlainDistinct} {firstItem : PlainItem}
    {moreItems : List PlainItem} {fromClause : PlainFrom} {whereClause : Option PlainExpr}
    {groupBy : List PlainExpr} {having : Option PlainExpr} {orderBy : List PlainOrderItem}
    {limit : Option PlainLimit} {offset : Option PlainExpr} {locking : List PlainLocking}
    {operations : PlainOperations}
    (hn : (PlainSelect.mk distinctKind firstItem moreItems fromClause whereClause groupBy having
      orderBy limit offset locking operations).print.length ≤ n)
    (hfrom : Reads (· ∈ afterFrom) (optionally (keyword "FROM") (parseFromClause (calls n)))
      fromClause.print fromClause.toClause)
    (hoperations : Reads (· ∈ afterSelect) (SelectParser.setOperations (calls n)) operations.print
      operations.toOperations) :
    Reads (· ∈ afterSelect) (parseSelect (calls n))
      (PlainSelect.mk distinctKind firstItem moreItems fromClause whereClause groupBy having
        orderBy limit offset locking operations).print
      (PlainSelect.mk distinctKind firstItem moreItems fromClause whereClause groupBy having
        orderBy limit offset locking operations).toSelect := by
  simp only [PlainSelect.print, List.length_cons, List.length_append] at hn
  -- What each clause and those behind it begin with.
  have lead₁ := leads_operations operations
  have lead₂ := (leads_locking locking).append lead₁
  have lead₃ : Leads (· ∈ afterSelect) (· ∈ afterLimit) _ :=
    (leads_clause PlainExpr.print List.mem_cons_self
      (fun t => List.mem_cons_of_mem _) offset).append lead₂
  have lead₄ : Leads (· ∈ afterSelect) (· ∈ afterOrder) _ :=
    (leads_clause PlainLimit.print List.mem_cons_self
      (fun t => List.mem_cons_of_mem _) limit).append lead₃
  have lead₅ : Leads (· ∈ afterSelect) (· ∈ afterHaving) _ :=
    (leads_listBy PlainOrderItem.print List.mem_cons_self
      (fun t => List.mem_cons_of_mem _) orderBy).append lead₄
  have lead₆ : Leads (· ∈ afterSelect) (· ∈ afterGroup) _ :=
    (leads_clause PlainExpr.print List.mem_cons_self
      (fun t => List.mem_cons_of_mem _) having).append lead₅
  have lead₇ : Leads (· ∈ afterSelect) (· ∈ afterWhere) _ :=
    (leads_listBy PlainExpr.print List.mem_cons_self
      (fun t => List.mem_cons_of_mem _) groupBy).append lead₆
  have lead₈ : Leads (· ∈ afterSelect) (· ∈ afterFrom) _ :=
    (leads_clause PlainExpr.print List.mem_cons_self
      (fun t => List.mem_cons_of_mem _) whereClause).append lead₇
  have lead₉ : Leads (· ∈ afterSelect) (· ∈ afterItems) _ :=
    (leads_from fromClause).append lead₈
  -- Each clause before the next.
  have hdistinct := reads_distinct (n := n) distinctKind (by omega)
  have hitems := reads_selectList (n := n) firstItem moreItems (by omega)
  have hends : ∀ t ∈ afterWhere, t ∈ endTokens := by decide
  have hwhere := reads_exprClause (n := n) afterWhere "WHERE" (by decide) hends (by decide)
    whereClause (by omega)
  have hgroupBy := reads_exprsBy (n := n) afterGroup "GROUP" (by decide)
    (fun t ht => hends t (List.mem_cons_of_mem _ ht)) (by decide) (by decide) groupBy (by omega)
  have hhaving := reads_exprClause (n := n) afterHaving "HAVING" (by decide)
    (fun t ht => hends t (List.mem_cons_of_mem _ (List.mem_cons_of_mem _ ht))) (by decide) having
    (by omega)
  have horderBy := reads_orderBy (n := n) orderBy (by omega)
  have hlimit := reads_limitClause (n := n) limit (by omega)
  have hoffset := reads_exprClause (n := n) afterOffset "OFFSET" (by decide) (by decide) (by decide)
    offset (by omega)
  exact Reads.cons_bind (expectKeyword_selectWord "SELECT" (by decide))
    (hdistinct.bind ((leads_items firstItem moreItems).append_any _) <|
      hitems.bind lead₉ <| hfrom.bind lead₈ <| hwhere.bind lead₇ <| hgroupBy.bind lead₆ <|
        hhaving.bind lead₅ <| horderBy.bind lead₄ <| hlimit.bind lead₃ <| hoffset.bind lead₂ <|
          (reads_lockingClauses locking).bind lead₁ <| hoperations.map _)

end Selects

section Trees

def SelectReads (select : PlainSelect) : Prop :=
  ∀ n, select.print.length < n →
    Reads (· ∈ afterSelect) (calls n).select select.print select.toSelect

def TableReads (table : PlainTable) : Prop :=
  ∀ n, table.print.length < n →
    Reads (· ≠ .dot) (parseTableRef (calls n)) table.print table.toTable

def FromReads (fromClause : PlainFrom) : Prop :=
  ∀ n, fromClause.print.length ≤ n →
    Reads (· ∈ .keyword "SET" :: afterFrom)
      (optionally (keyword "FROM") (parseFromClause (calls n))) fromClause.print
      fromClause.toClause

def JoinsRead (joins : PlainJoins) : Prop :=
  ∀ n, joins.print.length < n → ∀ acc,
    Rounds EndsFrom (joinStep (calls n)) acc joins.print ⟨acc ++ joins.toJoins⟩

def OperationsRead (operations : PlainOperations) : Prop :=
  ∀ n, operations.print.length < n → ∀ acc,
    Rounds (· ∈ afterSelect) (operationStep (calls n)) acc operations.print
      (acc ++ operations.toOperations)

theorem selectReads_mk {distinctKind : PlainDistinct} {firstItem : PlainItem}
    {moreItems : List PlainItem} {fromClause : PlainFrom} {whereClause : Option PlainExpr}
    {groupBy : List PlainExpr} {having : Option PlainExpr} {orderBy : List PlainOrderItem}
    {limit : Option PlainLimit} {offset : Option PlainExpr} {locking : List PlainLocking}
    {operations : PlainOperations} (hfrom : FromReads fromClause)
    (hoperations : OperationsRead operations) :
    SelectReads (.mk distinctKind firstItem moreItems fromClause whereClause groupBy having orderBy
      limit offset locking operations) := by
  intro n hn
  obtain ⟨n, rfl⟩ : ∃ m, n = m + 1 := ⟨n - 1, by omega⟩
  have hle := Nat.le_of_lt_succ hn
  simp only [PlainSelect.print, List.length_cons, List.length_append] at hn
  refine reads_parseSelect hle ?_ ?_
  · exact (hfrom n (by omega)).mono fun t => List.mem_cons_of_mem _
  · exact (hoperations n (by omega) []).reads advances_operationStep

theorem tableReads_named (name : DottedName) : TableReads (.named name) :=
  fun _ _ => reads_named name

theorem tableReads_subquery {select : PlainSelect} (hselect : SelectReads select) :
    TableReads (.subquery select) := by
  intro n hn
  rw [PlainTable.print, List.length_cons, List.length_append] at hn
  exact reads_subquery (hselect n (by omega))

theorem fromReads_none : FromReads .none := by
  have hword : ∀ t ∈ .keyword "SET" :: afterFrom, keyword "FROM" t = false :=
    keyword_behind "FROM" (by decide) (by decide)
  exact fun n _ => reads_onToken_neg (leads_nil hword) (reads_pure none)

theorem reads_fromTables {table : PlainTable} (aliasName : Option WrittenAlias)
    {joins : PlainJoins} (htable : TableReads table) (hjoins : JoinsRead joins) {n : Nat}
    (hn : (table.print ++ (printAlias aliasName ++ joins.print)).length < n) :
    Reads EndsFrom (parseFromClause (calls n))
      (table.print ++ (printAlias aliasName ++ joins.print))
      ⟨⟨table.toTable, aliasText aliasName, .inner, .none⟩ :: joins.toJoins⟩ := by
  rw [List.length_append, List.length_append] at hn
  exact reads_fromClause (htable n (by omega)) (hjoins n (by omega))

theorem fromReads_some {table : PlainTable} (aliasName : Option WrittenAlias) {joins : PlainJoins}
    (htable : TableReads table) (hjoins : JoinsRead joins) :
    FromReads (.some table aliasName joins) := by
  intro n hn
  have hclause := reads_fromTables aliasName htable hjoins hn
  exact reads_onToken_pos (keyword_selectWord _ (by decide))
    ((hclause.map some).mono endsFrom_afterFrom)

theorem joinsRead_nil : JoinsRead .nil := by
  intro n _ acc
  rw [PlainJoins.toJoins, List.append_nil]
  exact .stop (reads_onSome_neg (leads_nil fun t ht => ht.join) (reads_pure _))

theorem joinsRead_cons (joinType : PlainJoinType) {table : PlainTable}
    (aliasName : Option WrittenAlias) (constraint : PlainConstraint) {joins : PlainJoins}
    (htable : TableReads table) (hjoins : JoinsRead joins) :
    JoinsRead (.cons joinType table aliasName constraint joins) := by
  intro n hn acc
  simp only [PlainJoins.print, List.length_append] at hn
  have hstep := reads_joinStep joinType aliasName constraint (by omega) (htable n (by omega)) acc
  have hrounds := Rounds.go hstep (leads_joins joins) (hjoins n (by omega) _)
  simpa only [PlainJoins.print, PlainJoins.toJoins, List.append_assoc, List.singleton_append]
    using hrounds

theorem operationsRead_nil : OperationsRead .nil := by
  have hnone : ∀ t ∈ afterSelect, setOperators t = none := by
    simp only [afterSelect, List.forall_mem_cons]
    exact ⟨rfl, rfl, rfl, setOperators_selectWord (by decide),
      fun t ht => absurd ht List.not_mem_nil⟩
  intro n _ acc
  rw [PlainOperations.toOperations, List.append_nil]
  exact .stop (reads_onSome_neg (leads_nil hnone) (reads_pure _))

/-- An operand without parentheses reads on to the end of the select. -/
theorem operationsRead_last (operator : SetOperator) {select : PlainSelect}
    (hselect : SelectReads select) : OperationsRead (.last operator select) := by
  intro n hn acc
  rw [PlainOperations.print, List.length_append] at hn
  have hread := hselect n (by omega)
  obtain ⟨tokens, hprint⟩ := exists_print_select select
  rw [PlainOperations.print, hprint]
  rw [hprint] at hread
  have hbody : Reads (· ∈ afterSelect) (parseSelectBody (calls n)) (.keyword "SELECT" :: tokens)
      select.toSelect := reads_onToken_other rfl hread
  have hword : keyword "ALL" (.keyword "SELECT") = false :=
    keyword_selectWord_ne (by decide) (by decide)
  have hstep := reads_operationStep operator hbody
    (leads_cons (F := fun t => keyword "ALL" t = false) hword _) acc
  have hstop := operationsRead_nil n (Nat.zero_lt_of_lt hn) (acc ++ [⟨operator, select.toSelect⟩])
  rw [PlainOperations.toOperations, List.append_nil] at hstop
  have hrounds := Rounds.go hstep (leads_nil fun _ ht => ht) hstop
  rwa [List.append_nil] at hrounds

theorem operationsRead_cons (operator : SetOperator) {select : PlainSelect}
    {operations : PlainOperations} (hselect : SelectReads select)
    (hoperations : OperationsRead operations) :
    OperationsRead (.cons operator select operations) := by
  intro n hn acc
  simp only [PlainOperations.print, List.length_append, List.length_cons] at hn
  have hbody : Reads (· ∈ afterLocking) (parseSelectBody (calls n))
      (.lParen :: (select.print ++ [.rParen])) select.toSelect :=
    reads_onToken_pos (decide_eq_true rfl) (reads_nested (hselect n (by omega)) id)
  have hstep := reads_operationStep operator hbody
    (leads_cons (F := fun t => keyword "ALL" t = false) rfl _) acc
  have hrounds := Rounds.go hstep (leads_operations operations) (hoperations n (by omega) _)
  simpa only [PlainOperations.print, PlainOperations.toOperations, List.append_assoc,
    List.cons_append, List.nil_append] using hrounds

mutual

theorem selectReads : ∀ select : PlainSelect, SelectReads select
  | .mk _ _ _ fromClause _ _ _ _ _ _ _ operations =>
      selectReads_mk (fromReads fromClause) (operationsRead operations)

theorem tableReads : ∀ table : PlainTable, TableReads table
  | .named name => tableReads_named name
  | .subquery select => tableReads_subquery (selectReads select)

theorem fromReads : ∀ fromClause : PlainFrom, FromReads fromClause
  | .none => fromReads_none
  | .some table aliasName joins => fromReads_some aliasName (tableReads table) (joinsRead joins)

theorem joinsRead : ∀ joins : PlainJoins, JoinsRead joins
  | .nil => joinsRead_nil
  | .cons joinType table aliasName constraint joins =>
      joinsRead_cons joinType aliasName constraint (tableReads table) (joinsRead joins)

theorem operationsRead : ∀ operations : PlainOperations, OperationsRead operations
  | .nil => operationsRead_nil
  | .last operator select => operationsRead_last operator (selectReads select)
  | .cons operator select operations =>
      operationsRead_cons operator (selectReads select) (operationsRead operations)

end

end Trees

section Texts

/-- What a statement is read from up to its end, it is read from in every text. -/
theorem parse_of_reads {fuel : Nat} {tokens : List Token} {statement : Statement}
    (hreads : Reads (· = .eof) (parseStatement fuel) tokens statement) {sql : String}
    (htext : Writes tokens sql.toList) : parse fuel sql = .ok statement [.eof] := by
  rw [parse, tokenize_of_writes htext]
  exact hreads .eof [] rfl

/-- A select is read as a statement. -/
theorem reads_selectStatement (select : PlainSelect) {fuel : Nat}
    (hfuel : select.print.length < fuel) :
    Reads (· = .eof) (parseStatement fuel) select.print (.select none select.toSelect) := by
  have hselect := selectReads select fuel hfuel
  obtain ⟨fuel, rfl⟩ : ∃ m, fuel = m + 1 := ⟨fuel - 1, by omega⟩
  obtain ⟨tokens, hprint⟩ := exists_print_select select
  rw [hprint] at hselect ⊢
  refine reads_ifNext_pos (keyword_selectWord "SELECT" (by decide)) ?_
  refine (hselect.map (Statement.select none)).mono ?_
  rintro t rfl
  exact List.mem_cons_self

theorem wordToken_selectWord (word : String) (h : word ∈ selectWords) :
    .keyword word = wordToken word := by
  have hkeywords : ∀ word ∈ selectWords, word ∈ keywords := by decide +kernel
  rw [wordToken, toUppercase_selectWord word h, if_pos (hkeywords word h)]

theorem wordToken_name (name : Name) : .ident name.val = wordToken name.val :=
  (if_neg name.property).symm

theorem toUppercase_sampleName : ∀ s ∈ ["t", "u", "x", "y"], toUppercase s ∉ keywords := by
  decide +kernel

def sampleName (s : String) (h : s ∈ ["t", "u", "x", "y"]) : Name :=
  ⟨s, toUppercase_sampleName s h⟩

def sampleTable : Name := sampleName "t" (by decide)

def sampleColumn : Name := sampleName "x" (by decide)

/-- The select `SELECT x FROM ( SELECT y FROM u ) t UNION SELECT x FROM t`. -/
def sampleSelect : PlainSelect :=
  let t := sampleTable
  let column (name : Name) : PlainItem := .expr (.identifier name) none
  let simple (item : PlainItem) (fromClause : PlainFrom) (operations : PlainOperations) :
      PlainSelect :=
    .mk .all item [] fromClause none [] none [] none none [] operations
  let x := column sampleColumn
  let inner := simple (column (sampleName "y" (by decide)))
    (.some (.named ⟨sampleName "u" (by decide), []⟩) none .nil) .nil
  simple x (.some (.subquery inner) (some ⟨false, t⟩) .nil)
    (.last .union (simple x (.some (.named ⟨t, []⟩) none .nil) .nil))

theorem ident_sampleName (s : String) (h : s ∈ ["t", "u", "x", "y"]) :
    .ident s = wordToken s :=
  wordToken_name (sampleName s h)

theorem writes_sampleSelect :
    Writes sampleSelect.print
      "SELECT x FROM ( SELECT y FROM u ) t UNION SELECT x FROM t ".toList := by
  have hprint : sampleSelect.print =
      [.keyword "SELECT", .ident "x", .keyword "FROM", .lParen, .keyword "SELECT", .ident "y",
        .keyword "FROM", .ident "u", .rParen, .ident "t", .keyword "UNION", .keyword "SELECT",
        .ident "x", .keyword "FROM", .ident "t"] := rfl
  rw [hprint, wordToken_selectWord "SELECT" (by decide), wordToken_selectWord "FROM" (by decide),
    wordToken_selectWord "UNION" (by decide), ident_sampleName "x" (by decide),
    ident_sampleName "y" (by decide), ident_sampleName "u" (by decide),
    ident_sampleName "t" (by decide)]
  have hunion := (((((Writes.done.word "t" rfl).word "FROM" rfl).word "x" rfl).word "SELECT"
    rfl).word "UNION" rfl).word "t" rfl
  have hclose : TextOf .rParen [')'] fun _ => false := .punctuation rfl
  have hblank : isBlank ' ' = true := rfl
  have hopen : TextOf .lParen ['('] fun _ => false := .punctuation rfl
  have hinner := ((((Writes.token hclose (fun _ _ => rfl) (.blank hblank hunion)).word "u"
    rfl).word "FROM" rfl).word "y" rfl).word "SELECT" rfl
  exact (((Writes.token hopen (fun _ _ => rfl) (.blank hblank hinner)).word "FROM" rfl).word "x"
    rfl).word "SELECT" rfl

end Texts

end PostgressRs.Sql.SelectRoundTrip
