import Mathlib.Data.List.Basic
import PostgressRs.Executor.SetOperations
import PostgressRs.Lib.TokenParser
import PostgressRs.Server.Queries
import PostgressRs.Sql.Ast
import PostgressRs.Sql.ExprParser
import PostgressRs.Sql.ExprPrinter
import PostgressRs.Sql.ExprRoundTrip
import PostgressRs.Sql.FromClauseRoundTrip
import PostgressRs.Sql.SelectParser
import PostgressRs.Sql.StatementRegularity
import PostgressRs.Sql.StatementTermination
import PostgressRs.Sql.Tokenizer
import PostgressRs.Sql.TokenStream

/-!
Selects chained by set operators: how they are parsed, and whether that is what their
operators mean from the left to the right.
-/

namespace PostgressRs.Sql.OperatorChains

open PostgressRs.Executor.SetOperations
open PostgressRs.Lib.TokenParser
open PostgressRs.Server.Queries (SelectResult)
open PostgressRs.Sql.Ast
open PostgressRs.Sql.ExprParser
open PostgressRs.Sql.ExprPrinter
open PostgressRs.Sql.ExprRoundTrip
open PostgressRs.Sql.FromClauseRoundTrip
open PostgressRs.Sql.SelectParser
open PostgressRs.Sql.StatementRegularity
open PostgressRs.Sql.StatementTermination
open PostgressRs.Sql.Tokenizer
open PostgressRs.Sql.TokenStream

section Bodies

/-- The end of the text, or a set operator. -/
def EndsBody (t : Token) : Prop := t = .eof ∨ (setOperators t).isSome = true

/-- A select without set operations, with tokens that it is read from up to an operator
behind them. -/
structure Body where
  select : SelectStatement
  tail : List Token
  depth : Nat
  parsed : ∀ fuel t rest, depth ≤ fuel → EndsBody t →
    parseSelect (calls fuel) (.keyword "SELECT" :: (tail ++ t :: rest)) =
      (setOperations (calls fuel) >>= fun operations => pure (withOperations select operations))
        (t :: rest)

def Body.print (body : Body) : List Token := .keyword "SELECT" :: body.tail

/-- The bodies behind the first, each with the operator before it. -/
abbrev BodyChain : Type := List (ChainOperator × Body)

def printOperator : ChainOperator → List Token
  | .union => [.keyword "UNION"]
  | .unionAll => [.keyword "UNION", .keyword "ALL"]
  | .except => [.keyword "EXCEPT"]
  | .exceptAll => [.keyword "EXCEPT", .keyword "ALL"]

def printChain (chain : BodyChain) : List Token :=
  chain.flatMap fun link => printOperator link.1 ++ link.2.print

def linksOf (chain : BodyChain) : Links := chain.map fun link => (link.1, link.2.select)

def chainDepth : BodyChain → Nat
  | [] => 0
  | (_, body) :: chain => max body.depth (chainDepth chain) + 1

end Bodies

section Parsing

/-- How an operator is read. -/
structure ReadsOperator (operator : ChainOperator) (t : Token) (tail : List Token)
    (operators : SetOperator × SetOperator) (all : Bool) : Prop where
  print : printOperator operator = t :: tail
  begins : setOperators t = some operators
  flagged : ∀ ts, flag (keyword "ALL") (tail ++ .keyword "SELECT" :: ts) =
    .ok all (.keyword "SELECT" :: ts)
  chosen : (if all then operators.2 else operators.1) = operator.toSetOperator

theorem exists_readsOperator (operator : ChainOperator) :
    ∃ t tail operators all, ReadsOperator operator t tail operators all := by
  have hunion : setOperators (.keyword "UNION") = some (.union, .unionAll) := by decide +kernel
  have hexcept : setOperators (.keyword "EXCEPT") = some (.except, .exceptAll) := by decide +kernel
  have hselect : keyword "ALL" (.keyword "SELECT") = false := by decide +kernel
  have hall : keyword "ALL" (.keyword "ALL") = true := by decide +kernel
  cases operator with
  | union => exact ⟨_, _, _, false, rfl, hunion, fun _ => onToken_neg hselect, rfl⟩
  | unionAll => exact ⟨_, _, _, true, rfl, hunion, fun _ => onToken_pos hall, rfl⟩
  | except => exact ⟨_, _, _, false, rfl, hexcept, fun _ => onToken_neg hselect, rfl⟩
  | exceptAll => exact ⟨_, _, _, true, rfl, hexcept, fun _ => onToken_pos hall, rfl⟩

theorem exists_endsBody (chain : BodyChain) :
    ∃ t rest, printChain chain ++ [.eof] = t :: rest ∧ EndsBody t := by
  cases chain with
  | nil => exact ⟨.eof, [], rfl, .inl rfl⟩
  | cons link chain =>
      obtain ⟨operator, body⟩ := link
      obtain ⟨t, tail, operators, all, hreads⟩ := exists_readsOperator operator
      refine ⟨t, tail ++ body.print ++ printChain chain ++ [.eof], ?_, .inr ?_⟩
      · rw [printChain, List.flatMap_cons, hreads.print]
        rfl
      · rw [hreads.begins]
        rfl

def operationStep (r : Calls) (operations : List (SetOperation SelectStatement)) :
    SqlParser (List (SetOperation SelectStatement) ⊕ List (SetOperation SelectStatement)) :=
  onSome setOperators
    (fun operators => do
      let all ← flag (keyword "ALL")
      let select ← parseSelectBody r
      pure (.inl (operations ++ [⟨if all then operators.2 else operators.1, select⟩])))
    (pure (.inr operations))

theorem setOperations_eq (r : Calls) : setOperations r = iterate (operationStep r) [] := rfl

variable {fuel : Nat}

theorem advances_operationStep (operations : List (SetOperation SelectStatement)) :
    Advances .eof 0 (operationStep (calls fuel) operations)
      (operationStep (calls fuel) operations) := by
  refine Advances.onSome rfl (fun _ => ?_) (advances_done _)
  exact (regular_flag rfl).bind fun _ =>
    (regular_parseSelectBody (regularCalls fuel)).bind fun _ => regular_pure _

theorem operationStep_eof (operations : List (SetOperation SelectStatement)) :
    iterate (operationStep (calls fuel)) operations [.eof] = .ok operations [.eof] := by
  have hstep : operationStep (calls fuel) operations [.eof] = .ok (.inr operations) [.eof] := rfl
  rw [iterate_eq advances_operationStep, hstep]

theorem parseSelectBody_select (r : Calls) (ts : List Token) :
    parseSelectBody r (.keyword "SELECT" :: ts) = r.select (.keyword "SELECT" :: ts) :=
  onToken_ne (by simp)

/-- A select takes all the operators behind it as its own. -/
theorem setOperations_print {chain : BodyChain} (hdepth : chainDepth chain ≤ fuel) :
    setOperations (calls fuel) (printChain chain ++ [.eof]) =
      .ok (nestedOperations (linksOf chain)) [.eof] := by
  induction chain generalizing fuel with
  | nil => exact operationStep_eof []
  | cons link chain ih =>
      obtain ⟨operator, body⟩ := link
      rw [chainDepth] at hdepth
      obtain ⟨fuel, rfl⟩ : ∃ n, fuel = n + 1 := ⟨fuel - 1, by omega⟩
      obtain ⟨t, tail, operators, all, hreads⟩ := exists_readsOperator operator
      obtain ⟨next, rest, hnext, hends⟩ := exists_endsBody chain
      have hchain : setOperations (calls fuel) (next :: rest) =
          .ok (nestedOperations (linksOf chain)) [.eof] := by
        rw [← hnext]
        exact ih (by omega)
      have hbody :
          parseSelectBody (calls (fuel + 1)) (.keyword "SELECT" :: (body.tail ++ next :: rest))
            = .ok (withOperations body.select (nestedOperations (linksOf chain))) [.eof] := by
        rw [parseSelectBody_select]
        change parseSelect (calls fuel) _ = _
        rw [body.parsed fuel next rest (by omega) hends, bind_ok hchain]
        rfl
      have htokens : printChain ((operator, body) :: chain) ++ [.eof] =
          t :: (tail ++ .keyword "SELECT" :: (body.tail ++ next :: rest)) := by
        rw [← hnext, printChain, List.flatMap_cons, hreads.print, Body.print]
        simp only [List.cons_append, List.append_assoc]
        rfl
      rw [htokens, setOperations_eq, iterate_eq advances_operationStep, operationStep,
        onSome_cons_pos hreads.begins, bind_ok (hreads.flagged _), bind_ok hbody, hreads.chosen]
      exact operationStep_eof _

theorem parseSelect_print (first : Body) {chain : BodyChain} (hfirst : first.depth ≤ fuel)
    (hdepth : chainDepth chain ≤ fuel) :
    parseSelect (calls fuel) (first.print ++ (printChain chain ++ [.eof])) =
      .ok (withOperations first.select (nestedOperations (linksOf chain))) [.eof] := by
  obtain ⟨next, rest, hnext, hends⟩ := exists_endsBody chain
  have hchain := setOperations_print hdepth
  rw [hnext] at hchain ⊢
  rw [Body.print, List.cons_append, first.parsed fuel next rest hfirst hends, bind_ok hchain]
  rfl

end Parsing

section Tables

variable {fuel : Nat} {t : Token}

theorem EndsBody.keyword_eq_false (h : EndsBody t) {word : String}
    (hword : word ∉ ["UNION", "INTERSECT", "EXCEPT"]) : keyword word t = false := by
  rcases h with rfl | h
  · rfl
  · cases t with
    | keyword k =>
        rw [keyword, decide_eq_false_iff_not]
        rintro rfl
        simp only [List.mem_cons, List.not_mem_nil, or_false, not_or] at hword
        rw [setOperators, if_neg hword.1, if_neg hword.2.1, if_neg hword.2.2] at h
        cases h
    | _ => rfl

theorem EndsBody.endsTable (h : EndsBody t) : EndsTable t where
  dot := by
    rintro rfl
    rcases h with h | h <;> cases h
  asWord := h.keyword_eq_false (by decide)
  ident := by
    rcases h with rfl | h
    · rfl
    · cases t with
      | ident s => cases h
      | _ => rfl

theorem EndsBody.joinWord_eq_none (h : EndsBody t) : joinWord t = none := by
  rcases h with rfl | h
  · rfl
  · cases t with
    | keyword k =>
        rw [setOperators] at h
        rw [joinWord, if_neg]
        revert h
        generalize toUppercase k = word
        intro h hmem
        revert h
        revert word
        decide
    | _ => rfl

/-- The clause `FROM` with one table. -/
def oneTable (name : Name) : FromClause Expr SelectStatement :=
  ⟨[⟨.table ⟨[name.val]⟩, none, .inner, .none⟩]⟩

theorem parseFromClause_oneTable (name : Name) (ht : EndsBody t) (rest : List Token) :
    parseFromClause (calls fuel) (.ident name.val :: t :: rest) =
      .ok (oneTable name) (t :: rest) := by
  have hstep (joins : List (Join Expr SelectStatement)) :
      joinStep (calls fuel) joins (t :: rest) = .ok (.inr ⟨joins⟩) (t :: rest) :=
    onSome_cons_neg ht.joinWord_eq_none
  have htable := table_print (calls fuel) ⟨name, []⟩ none ht.endsTable rest
    fun table aliasName => iterate (joinStep (calls fuel)) [⟨table, aliasName, .inner, .none⟩]
  refine Eq.trans htable ?_
  rw [iterate_eq advances_joinStep, hstep]
  rfl

theorem optionally_ends {α : Type} {p : SqlParser α} (ht : EndsBody t) {word : String}
    (hword : word ∉ ["UNION", "INTERSECT", "EXCEPT"]) (rest : List Token) :
    optionally (keyword word) p (t :: rest) = .ok none (t :: rest) :=
  onToken_neg (ht.keyword_eq_false hword)

theorem listBy_ends {α : Type} {p : SqlParser α} (ht : EndsBody t) {word : String}
    (hword : word ∉ ["UNION", "INTERSECT", "EXCEPT"]) (rest : List Token) :
    listBy word p (t :: rest) = .ok [] (t :: rest) :=
  onToken_neg (ht.keyword_eq_false hword)

def lockingStep (locking : List LockingClause) :
    SqlParser (List LockingClause ⊕ List LockingClause) :=
  onToken (keyword "FOR") (do let clause ← lockingClause; pure (.inl (locking ++ [clause])))
    (pure (.inr locking))

theorem advances_lockingStep (locking : List LockingClause) :
    Advances .eof 0 (lockingStep locking) (lockingStep locking) :=
  Advances.onToken rfl (regular_lockingClause.bind fun _ => regular_pure _) (advances_done _)

theorem lockingClauses_ends (ht : EndsBody t) (rest : List Token) :
    lockingClauses (t :: rest) = .ok [] (t :: rest) := by
  have hstep : lockingStep [] (t :: rest) = .ok (.inr []) (t :: rest) :=
    onToken_neg (ht.keyword_eq_false (by decide))
  change iterate lockingStep [] (t :: rest) = _
  rw [iterate_eq advances_lockingStep, hstep]

theorem parseSelectList_star (rest : List Token) :
    parseSelectList (calls fuel) (.star :: .keyword "FROM" :: rest) =
      .ok [.star] (.keyword "FROM" :: rest) := by
  have hitem : selectItem (calls fuel) (.star :: .keyword "FROM" :: rest) =
      .ok .star (.keyword "FROM" :: rest) := by
    rw [selectItem, onToken_self, onToken_ne (by simp)]
    rfl
  have hmore : moreItems (· = .comma) (selectItem (calls fuel)) [.star]
      (.keyword "FROM" :: rest) = .ok (.inr [.star]) (.keyword "FROM" :: rest) :=
    onToken_ne (by simp)
  rw [parseSelectList, commaSeparated, sepBy, bind_ok hitem,
    iterate_eq (advances_moreItems (regular_selectItem (regularCalls fuel)) rfl), hmore]

/-- The select `SELECT * FROM name`. -/
def tableBody (name : Name) : Body where
  select := .mk .all [.star] (some (oneTable name)) none [] none [] none none [] []
  tail := [.star, .keyword "FROM", .ident name.val]
  depth := 0
  parsed fuel t rest _ ht := by
    have hselect : keyword "SELECT" (.keyword "SELECT") = true := by decide +kernel
    have hfrom : keyword "FROM" (.keyword "FROM") = true := by decide +kernel
    have hdistinct (ts : List Token) : distinctClause (calls fuel) (.star :: ts) =
        .ok .all (.star :: ts) := onToken_neg rfl
    have hclause : optionally (keyword "FROM") (parseFromClause (calls fuel))
        (.keyword "FROM" :: .ident name.val :: t :: rest) =
          .ok (some (oneTable name)) (t :: rest) := by
      rw [optionally, onToken_pos hfrom, bind_ok (parseFromClause_oneTable name ht rest)]
      rfl
    change parseSelect (calls fuel)
      (.keyword "SELECT" :: .star :: .keyword "FROM" :: .ident name.val :: t :: rest) = _
    rw [parseSelect, bind_ok (expectKeyword_ok hselect), bind_ok (hdistinct _),
      bind_ok (parseSelectList_star _), bind_ok hclause,
      bind_ok (optionally_ends ht (by decide) rest), bind_ok (listBy_ends ht (by decide) rest),
      bind_ok (optionally_ends ht (by decide) rest), bind_ok (listBy_ends ht (by decide) rest),
      bind_ok (optionally_ends ht (by decide) rest),
      bind_ok (optionally_ends ht (by decide) rest), bind_ok (lockingClauses_ends ht rest)]
    rfl

end Tables

section Associativity

variable {ε : Type}

/-- The same error, or the same rows in some order. -/
def SameRows : Except ε SelectResult → Except ε SelectResult → Prop
  | .error e, .error e' => e = e'
  | .ok result, .ok result' => result.rows.Perm result'.rows
  | _, _ => False

theorem sameRows_refl (result : Except ε SelectResult) : SameRows result result := by
  cases result with
  | error e => rfl
  | ok result => exact List.Perm.refl _

/-- The chain is parsed to the end, and what it is parsed to has the rows of its operators
applied from the left. -/
def ReturnsLeft (evaluate : SelectStatement → Except ε SelectResult) (first : Body)
    (chain : BodyChain) : Prop :=
  ∃ fuel select,
    parseSelect (calls fuel) (first.print ++ (printChain chain ++ [.eof])) = .ok select [.eof] ∧
      SameRows (executeSelect evaluate select) (leftResult evaluate first.select (linksOf chain))

/-- However much fuel is used, the chain is parsed to the nested one. -/
theorem returnsLeft_iff (evaluate : SelectStatement → Except ε SelectResult) (first : Body)
    (chain : BodyChain) :
    ReturnsLeft evaluate first chain ↔
      SameRows
        (executeSelect evaluate
          (withOperations first.select (nestedOperations (linksOf chain))))
        (leftResult evaluate first.select (linksOf chain)) := by
  have hparse (fuel : Nat) (hfuel : max first.depth (chainDepth chain) ≤ fuel) :=
    parseSelect_print first (Nat.le_trans (Nat.le_max_left _ _) hfuel)
      (Nat.le_trans (Nat.le_max_right _ _) hfuel)
  constructor
  · rintro ⟨fuel, select, hselect, hsame⟩
    have hdeep := hparse (max fuel (max first.depth (chainDepth chain))) (Nat.le_max_right _ _)
    rcases (regular_parseSelect (regular_calls (Nat.le_max_left fuel
      (max first.depth (chainDepth chain))))).agrees
        (first.print ++ (printChain chain ++ [.eof])) with hagrees | hunfinished
    · rw [hagrees, hdeep] at hselect
      cases hselect
      exact hsame
    · rw [hunfinished] at hselect
      cases hselect
  · intro hsame
    exact ⟨_, _, hparse _ (Nat.le_refl _), hsame⟩

theorem map_fst_linksOf (chain : BodyChain) :
    (linksOf chain).map Prod.fst = chain.map Prod.fst := by
  rw [linksOf, List.map_map]
  rfl

theorem returnsLeft_of_associates (evaluate : SelectStatement → Except ε SelectResult)
    (first : Body) {chain : BodyChain} (h : Associates (chain.map Prod.fst)) :
    ReturnsLeft evaluate first chain := by
  rw [returnsLeft_iff]
  rw [← map_fst_linksOf] at h
  rw [executeSelect_nested_of_associates evaluate h]
  exact sameRows_refl _

theorem notKeyword_t0 : toUppercase "t0" ∉ keywords := by decide +kernel

theorem notKeyword_t1 : toUppercase "t1" ∉ keywords := by decide +kernel

theorem notKeyword_t2 : toUppercase "t2" ∉ keywords := by decide +kernel

/-- A table for each filling. -/
def tableName : Filling → Name
  | .empty => ⟨"t0", notKeyword_t0⟩
  | .single => ⟨"t1", notKeyword_t1⟩
  | .double => ⟨"t2", notKeyword_t2⟩

def fillingNamed (name : String) : Filling :=
  if name = "t1" then .single else if name = "t2" then .double else .empty

/-- The rows of the table that is selected from. -/
def tableRows : SelectStatement → Except ε SelectResult
  | .mk _ _ (some ⟨[⟨.table ⟨[name]⟩, _, _, _⟩]⟩) _ _ _ _ _ _ _ _ =>
      .ok ⟨["*"], (fillingNamed name).rows⟩
  | _ => .ok ⟨[], []⟩

def filledBody (filling : Filling) : Body := tableBody (tableName filling)

def filledChain (chain : List (ChainOperator × Filling)) : BodyChain :=
  chain.map fun link => (link.1, filledBody link.2)

theorem tableRows_filledBody (filling : Filling) :
    evaluateBody (@tableRows ε) (filledBody filling).select = .ok ⟨["*"], filling.rows⟩ := by
  cases filling <;> rfl

theorem chainOf_filledChain (chain : List (ChainOperator × Filling)) :
    chainOf (@tableRows ε) (linksOf (filledChain chain)) = .ok (filled chain) := by
  induction chain with
  | nil => rfl
  | cons link chain ih =>
      obtain ⟨operator, filling⟩ := link
      change chainOf _ ((operator, (filledBody filling).select) :: linksOf (filledChain chain)) = _
      rw [chainOf, tableRows_filledBody, ih]
      rfl

theorem not_returnsLeft_of_separates {first : Filling} {chain : List (ChainOperator × Filling)}
    (h : Separates first chain) :
    ¬ReturnsLeft (@tableRows ε) (filledBody first) (filledChain chain) := by
  rw [returnsLeft_iff, executeSelect_nested, leftResult_eq, tableRows_filledBody,
    chainOf_filledChain]
  exact h

/-- A chain has the rows of its operators applied from the left, whatever its selects are
and return, exactly if it is one where it does not matter which operators come first. -/
theorem returnsLeft_iff_associates (operators : List ChainOperator) :
    (∀ (evaluate : SelectStatement → Except ε SelectResult) (first : Body) (chain : BodyChain),
      chain.map Prod.fst = operators → ReturnsLeft evaluate first chain) ↔
        Associates operators := by
  constructor
  · intro hall
    by_contra hnot
    obtain ⟨first, chain, hoperators, hseparates⟩ := exists_separates hnot
    refine not_returnsLeft_of_separates hseparates (hall tableRows _ _ ?_)
    rw [filledChain, List.map_map]
    exact hoperators
  · rintro h evaluate first chain rfl
    exact returnsLeft_of_associates evaluate first h

/-- `SELECT * FROM t1` without itself, twice, still returns the row of `t1`. -/
theorem except_except_keeps_row :
    ¬ReturnsLeft (@tableRows String) (filledBody .single)
      [(.except, filledBody .single), (.except, filledBody .single)] := by
  have hseparates : Separates .single [(.except, .single), (.except, .single)] := by
    unfold Separates
    decide
  exact not_returnsLeft_of_separates hseparates

end Associativity

end PostgressRs.Sql.OperatorChains
