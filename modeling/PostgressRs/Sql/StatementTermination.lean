import Mathlib.Data.List.Basic
import PostgressRs.Lib.TokenParser
import PostgressRs.Sql.Ast
import PostgressRs.Sql.ExprParser
import PostgressRs.Sql.ExprRegularity
import PostgressRs.Sql.SelectParser
import PostgressRs.Sql.StatementParser
import PostgressRs.Sql.StatementRegularity
import PostgressRs.Sql.Tokenizer
import PostgressRs.Sql.TokenStream

/-!
When the parser comes to an end.  Every call and every round of a loop takes a token,
except for a statement that begins with a parenthesis: it is parsed again from the same
token.
-/

namespace PostgressRs.Sql.StatementTermination

open PostgressRs.Lib.TokenParser
open PostgressRs.Sql.Ast
open PostgressRs.Sql.ExprParser
open PostgressRs.Sql.ExprRegularity
open PostgressRs.Sql.SelectParser
open PostgressRs.Sql.StatementParser
open PostgressRs.Sql.StatementRegularity
open PostgressRs.Sql.Tokenizer
open PostgressRs.Sql.TokenStream

/-- The places in a text from which a statement is parsed: the beginning, behind `EXPLAIN`
and at the queries of a `WITH`. -/
inductive StatementAt : List Token → List Token → Prop where
  | start (ts : List Token) : StatementAt ts ts
  | explained {t : Token} {ts place : List Token} (ht : keyword "EXPLAIN" t = true)
      (h : StatementAt ts place) : StatementAt (t :: ts) place
  | query {t : Token} {ts ctes cte query place : List Token} {recursive : Bool} {fuel : Nat}
      {head : CteHead} (ht : keyword "WITH" t = true)
      (hrecursive : flag (keyword "RECURSIVE") ts = .ok recursive ctes)
      (hcte : ItemAt (· = .comma) (parseCte (parseStatement fuel)) ctes cte)
      (hhead : cteHead cte = .ok head query) (h : StatementAt query place) :
      StatementAt (t :: ts) place

section Divergence

theorem keyword_ne {word word' : String} {t : Token} (ht : keyword word t = true)
    (hne : word ≠ word') : keyword word' t = false := by
  cases t with
  | keyword k =>
      simp only [keyword, decide_eq_true_eq, decide_eq_false_iff_not] at ht ⊢
      rw [ht]
      exact hne
  | _ => cases ht

theorem oneOf_ne {word : String} {words : List String} {t : Token} (ht : keyword word t = true)
    (hne : word ∉ words) : oneOf words t = false := by
  cases t with
  | keyword k =>
      simp only [keyword, oneOf, decide_eq_true_eq, decide_eq_false_iff_not] at ht ⊢
      rw [ht]
      exact hne
  | _ => cases ht

variable {r : Calls} {statement : SqlParser Statement}

theorem parseStatementWith_lParen (ts : List Token) :
    parseStatementWith r statement (.lParen :: ts) = statement (.lParen :: ts) := rfl

theorem parseStatementWith_explain {t : Token} {ts : List Token}
    (ht : keyword "EXPLAIN" t = true) :
    parseStatementWith r statement (t :: ts) =
      (statement >>= fun inner => pure (.explain inner)) ts := by
  rw [parseStatementWith]
  iterate 10 rw [ifNext_neg (keyword_ne ht (by decide))]
  rw [ifNext_neg (oneOf_ne ht (by decide)), onToken_neg (keyword_ne ht (by decide)),
    onToken_neg (oneOf_ne ht (by decide)), onToken_pos ht]

theorem parseStatementWith_with {t : Token} {ts : List Token} (ht : keyword "WITH" t = true) :
    parseStatementWith r statement (t :: ts) = parseWithSelect r statement (t :: ts) := by
  rw [parseStatementWith, ifNext_neg (keyword_ne ht (by decide)), ifNext_pos ht]

theorem expectKeyword_ok {word : String} {t : Token} {ts : List Token}
    (ht : keyword word t = true) : expectKeyword word (t :: ts) = .ok () ts := by
  rw [expectKeyword, onToken_pos ht]
  rfl

/-- What a statement with less fuel accepts, one with more fuel accepts. -/
theorem parseStatement_ok_or_unfinished {fuel : Nat} {ts rest : List Token} {a : Statement}
    (h : parseStatement fuel ts = .ok a rest) (fuel' : Nat) :
    parseStatement fuel' ts = .ok a rest ∨ parseStatement fuel' ts = .unfinished := by
  rcases Nat.le_total fuel fuel' with hle | hle
  · rcases (regular_parseStatement hle).agrees ts with hsame | hstop
    · exact .inl (hsame.symm.trans h)
    · rw [hstop] at h
      cases h
  · rcases (regular_parseStatement hle).agrees ts with hsame | hstop
    · exact .inl (hsame.trans h)
    · exact .inr hstop

theorem parseCte_ok_or_unfinished {fuel fuel' : Nat} {ts rest : List Token}
    {a : CommonTableExpr Statement} (h : parseCte (parseStatement fuel) ts = .ok a rest) :
    parseCte (parseStatement fuel') ts = .ok a rest ∨
      parseCte (parseStatement fuel') ts = .unfinished := by
  obtain ⟨head, mid, hhead, hrest⟩ := bind_eq_ok.mp h
  obtain ⟨query, mid', hquery, hclose⟩ := bind_eq_ok.mp hrest
  rw [parseCte, bind_ok hhead]
  rcases parseStatement_ok_or_unfinished hquery fuel' with hok | hstop
  · rw [bind_ok hok]
    exact .inl hclose
  · exact .inr (bind_of_unfinished hstop)

/-- From a parenthesis the parser goes on without end. -/
theorem parseStatement_lParen (fuel : Nat) (ts : List Token) :
    parseStatement fuel (.lParen :: ts) = .unfinished := by
  induction fuel with
  | zero => rfl
  | succ fuel ih => rw [parseStatement, parseStatementWith_lParen, ih]

theorem regular_cte (fuel : Nat) :
    Regular .eof 0 1 (parseCte (parseStatement fuel)) (parseCte (parseStatement fuel)) :=
  regular_parseCte (regular_parseStatement (Nat.le_refl fuel))

theorem parseStatement_unfinished {ts place : List Token} (h : StatementAt ts place)
    (hplace : place.head? = some .lParen) (fuel : Nat) :
    parseStatement fuel ts = .unfinished := by
  induction h generalizing fuel with
  | start ts =>
      cases ts with
      | nil => cases hplace
      | cons t ts =>
          cases hplace
          exact parseStatement_lParen fuel ts
  | explained ht h ih =>
      cases fuel with
      | zero => rfl
      | succ fuel =>
          rw [parseStatement, parseStatementWith_explain ht]
          exact bind_of_unfinished (ih hplace fuel)
  | query ht hrecursive hcte hhead h ih =>
      cases fuel with
      | zero => rfl
      | succ fuel =>
          rw [parseStatement, parseStatementWith_with ht, parseWithSelect,
            bind_ok (expectKeyword_ok ht), bind_ok hrecursive]
          refine bind_of_unfinished (sepBy_unfinished (regular_cte fuel) rfl
            (fun _ _ _ => parseCte_ok_or_unfinished) hcte ?_)
          rw [parseCte, bind_ok hhead]
          exact bind_of_unfinished (ih hplace fuel)

end Divergence

section Progress

variable {fuel : Nat} {ts : List Token}

/-- A list of queries that does not come to an end has one that does not, and the
statements behind it are shorter. -/
theorem exists_unfinished_query
    (h : parseWithSelect (calls fuel) (parseStatement fuel) ts = .unfinished)
    (hts : ts.length < fuel + 1) {t : Token} {rest : List Token} (hcons : ts = t :: rest)
    (ht : keyword "WITH" t = true) :
    ∃ recursive ctes cte head query, flag (keyword "RECURSIVE") rest = .ok recursive ctes ∧
      ItemAt (· = .comma) (parseCte (parseStatement fuel)) ctes cte ∧
      cteHead cte = .ok head query ∧ query.length < fuel ∧
      parseStatement fuel query = .unfinished := by
  subst hcons
  rw [List.length_cons] at hts
  rw [parseWithSelect, bind_ok (expectKeyword_ok ht)] at h
  rcases bind_unfinished h with hstop | ⟨recursive, ctes, hrecursive, h⟩
  · exact absurd hstop ((regular_flag rfl (n := rest.length + 1)).finishes rest
      (Nat.lt_succ_self _))
  obtain ⟨u, hu, -⟩ := (regular_flag rfl (n := 0)).takes rest _ _ hrecursive
  have hctes : ctes.length ≤ rest.length := by
    rw [hu, List.length_append]
    omega
  rcases bind_unfinished h with hstop | ⟨list, rest', hlist, h⟩
  · obtain ⟨cte, hcte, hstop⟩ := exists_unfinished_item (regular_cte fuel) rfl hstop
    rcases bind_unfinished hstop with hstop | ⟨head, query, hhead, h⟩
    · exact absurd hstop
        ((regular_cteHead (n := cte.length + 1)).finishes cte (Nat.lt_succ_self _))
    obtain ⟨v, hv⟩ := hcte.suffix (regular_cte fuel)
    obtain ⟨w, hw, hpos⟩ := (regular_cteHead (n := 0)).takes cte _ _ hhead
    refine ⟨recursive, ctes, cte, head, query, hrecursive, hcte, hhead, ?_, ?_⟩
    · have hlen := congrArg List.length hv
      have hlen' := congrArg List.length hw
      rw [List.length_append] at hlen hlen'
      omega
    · rcases bind_unfinished h with hstop | ⟨statement, rest, hstatement, h⟩
      · exact hstop
      rcases bind_unfinished h with hstop | ⟨_, rest, _, h⟩
      · exact absurd hstop
          ((regular_closing (n := _ + 1) head.opened).finishes _ (Nat.lt_succ_self _))
      · cases h
  · obtain ⟨v, hv, -⟩ := (regular_commaSeparated (regular_cte fuel)).takes ctes _ _ hlist
    have hlen := congrArg List.length hv
    rw [List.length_append] at hlen
    rcases bind_unfinished h with hstop | ⟨select, rest, hselect, h⟩
    · exact absurd hstop ((regular_calls (Nat.le_refl fuel)).select.finishes _ (by omega))
    · cases h

/-- The statements that hold no other statement come to an end. -/
theorem parseStatementWith_unfinished {statement : SqlParser Statement}
    (h : parseStatementWith (calls fuel) statement ts = .unfinished) (hts : ts.length < fuel + 1) :
    ∃ t rest, ts = t :: rest ∧
      (keyword "WITH" t = true ∧ parseWithSelect (calls fuel) statement ts = .unfinished ∨
        keyword "EXPLAIN" t = true ∧ statement rest = .unfinished ∨
        t = .lParen ∧ statement ts = .unfinished) := by
  have hr := regular_calls (Nat.le_refl fuel)
  have h := ((regular_parseSelect hr).map _).ifNext_unfinished hts h
  rcases ifNext_unfinished h with ⟨t, rest, rfl, ht, hstop⟩ | h
  · exact ⟨t, rest, rfl, .inl ⟨ht, hstop⟩⟩
  have h := ((regular_parseInsert hr).map _).ifNext_unfinished hts h
  have h := ((regular_parseUpdate hr).map _).ifNext_unfinished hts h
  have h := ((regular_parseDelete hr).map _).ifNext_unfinished hts h
  have h := regular_parseSet.ifNext_unfinished hts h
  have h := (regular_parseCreate hr).ifNext_unfinished hts h
  have h := (regular_parseAlter hr).ifNext_unfinished hts h
  have h := regular_parseDrop.ifNext_unfinished hts h
  have h := ((regular_parseMerge hr).map _).ifNext_unfinished hts h
  have h := (regular_parseBegin.map _).ifNext_unfinished hts h
  rcases onToken_unfinished h with ⟨_, _, _, _, hstop⟩ | h
  · cases hstop
  rcases onToken_unfinished h with ⟨_, _, _, _, hstop⟩ | h
  · cases hstop
  rcases onToken_unfinished h with ⟨t, rest, rfl, ht, hstop⟩ | h
  · rcases bind_unfinished hstop with hstop | ⟨_, _, _, hstop⟩
    · exact ⟨t, rest, rfl, .inr (.inl ⟨ht, hstop⟩)⟩
    · cases hstop
  rcases ifNext_unfinished h with ⟨t, rest, rfl, ht, hstop⟩ | h
  · exact ⟨t, rest, rfl, .inr (.inr ⟨of_decide_eq_true ht, hstop⟩)⟩
  · cases h

/-- With fuel for all tokens the parser only goes on without end from a parenthesis. -/
theorem exists_lParen_of_unfinished (h : parseStatement fuel ts = .unfinished)
    (hts : ts.length < fuel) :
    ∃ place, StatementAt ts place ∧ place.head? = some .lParen := by
  induction fuel generalizing ts with
  | zero => omega
  | succ fuel ih =>
      obtain ⟨t, rest, rfl, hcases⟩ := parseStatementWith_unfinished h hts
      rcases hcases with ⟨ht, hstop⟩ | ⟨ht, hstop⟩ | ⟨rfl, -⟩
      · obtain ⟨recursive, ctes, cte, head, query, hrecursive, hcte, hhead, hlen, hstop⟩ :=
          exists_unfinished_query hstop hts rfl ht
        obtain ⟨place, hplace, hparen⟩ := ih hstop hlen
        exact ⟨place, .query ht hrecursive hcte hhead hplace, hparen⟩
      · rw [List.length_cons] at hts
        obtain ⟨place, hplace, hparen⟩ := ih hstop (by omega)
        exact ⟨place, .explained ht hplace, hparen⟩
      · exact ⟨_, .start _, rfl⟩

end Progress

section Termination

/-- Parsing comes to an end exactly if no statement that is parsed begins with a
parenthesis, and then with fuel for one call at each token. -/
theorem parse_terminates_iff (sql : String) :
    ((∃ fuel, parse fuel sql ≠ .unfinished) ↔
        ∀ place, StatementAt (tokenize sql) place → place.head? ≠ some .lParen) ∧
      ((∃ fuel, parse fuel sql ≠ .unfinished) →
        ∀ fuel, (tokenize sql).length < fuel → parse fuel sql ≠ .unfinished) := by
  have hends : (∃ fuel, parse fuel sql ≠ .unfinished) →
      ∀ place, StatementAt (tokenize sql) place → place.head? ≠ some .lParen := by
    rintro ⟨fuel, hfuel⟩ place hplace hparen
    exact hfuel (parseStatement_unfinished hplace hparen fuel)
  have henough : (∀ place, StatementAt (tokenize sql) place → place.head? ≠ some .lParen) →
      ∀ fuel, (tokenize sql).length < fuel → parse fuel sql ≠ .unfinished := by
    intro hnone fuel hfuel hstop
    obtain ⟨place, hplace, hparen⟩ := exists_lParen_of_unfinished hstop hfuel
    exact hnone place hplace hparen
  refine ⟨⟨hends, fun hnone => ⟨_, henough hnone _ (Nat.lt_succ_self _)⟩⟩, fun h => ?_⟩
  exact henough (hends h)

theorem parse_nested_select_diverges : ¬∃ fuel, parse fuel "(SELECT 1)" ≠ .unfinished := by
  rintro ⟨fuel, hfuel⟩
  have htokens : tokenize "(SELECT 1)" =
      [.lParen, .keyword "SELECT", .number "1", .rParen, .eof] := by decide +kernel
  apply hfuel
  rw [parse, htokens]
  exact parseStatement_lParen fuel _

end Termination

end PostgressRs.Sql.StatementTermination
