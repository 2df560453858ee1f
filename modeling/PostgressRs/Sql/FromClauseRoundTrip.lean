import Mathlib.Data.List.Basic
import PostgressRs.Lib.TokenParser
import PostgressRs.Sql.Ast
import PostgressRs.Sql.ExprParser
import PostgressRs.Sql.ExprPrinter
import PostgressRs.Sql.ExprRoundTrip
import PostgressRs.Sql.SelectParser
import PostgressRs.Sql.StatementRegularity
import PostgressRs.Sql.StatementTermination
import PostgressRs.Sql.Tokenizer
import PostgressRs.Sql.TokenStream
import PostgressRs.Sql.TokenText

/-!
From clauses with their joins, how they are written, and which of them are read back.
-/

namespace PostgressRs.Sql.FromClauseRoundTrip

open PostgressRs.Lib.TokenParser
open PostgressRs.Sql.Ast
open PostgressRs.Sql.ExprParser
open PostgressRs.Sql.ExprPrinter
open PostgressRs.Sql.ExprRoundTrip
open PostgressRs.Sql.SelectParser
open PostgressRs.Sql.StatementRegularity
open PostgressRs.Sql.StatementTermination
open PostgressRs.Sql.Tokenizer
open PostgressRs.Sql.TokenStream
open PostgressRs.Sql.TokenText

section Clauses

/-- The end of a clause, or the first word of another join. -/
def EndsJoin (t : Token) : Prop := t = .eof ∨ (joinWord t).isSome = true

/-- An expression with tokens that it is read from wherever a join can end. -/
structure Condition where
  expr : Expr
  tokens : List Token
  depth : Nat
  parsed : ∀ fuel t rest, depth ≤ fuel → EndsJoin t →
    (calls fuel).expr (tokens ++ t :: rest) = .ok expr (t :: rest)

def separated (separator : Token) (names : List Name) : List Token :=
  names.flatMap fun name => [separator, .ident name.val]

/-- One or more names with dots between them. -/
structure DottedName where
  first : Name
  more : List Name

structure WrittenAlias where
  asWord : Bool
  name : Name

inductive WrittenType where
  | inner (innerWord : Bool)
  | left (outerWord : Bool)
  | right (outerWord : Bool)
  | full (outerWord : Bool)
  | cross

inductive WrittenConstraint where
  | on (condition : Condition)
  | usingColumns (first : Name) (more : List Name)
  | none

structure WrittenJoin where
  joinType : WrittenType
  table : DottedName
  aliasName : Option WrittenAlias
  constraint : WrittenConstraint

structure WrittenFrom where
  table : DottedName
  aliasName : Option WrittenAlias
  joins : List WrittenJoin

end Clauses

section Trees

def DottedName.toTable (name : DottedName) : TableRef SelectStatement :=
  .table ⟨name.first.val :: name.more.map Subtype.val⟩

def aliasText (aliasName : Option WrittenAlias) : Option String :=
  aliasName.map fun written => written.name.val

def WrittenType.toJoinType : WrittenType → JoinType
  | .inner _ => .inner
  | .left _ => .left
  | .right _ => .right
  | .full _ => .full
  | .cross => .cross

def WrittenConstraint.toConstraint : WrittenConstraint → JoinConstraint Expr
  | .on condition => .on condition.expr
  | .usingColumns first more => .usingColumns (first.val :: more.map Subtype.val)
  | .none => .none

def WrittenJoin.toJoin (join : WrittenJoin) : Join Expr SelectStatement :=
  ⟨join.table.toTable, aliasText join.aliasName, join.joinType.toJoinType,
    join.constraint.toConstraint⟩

def WrittenFrom.toClause (clause : WrittenFrom) : FromClause Expr SelectStatement :=
  ⟨⟨clause.table.toTable, aliasText clause.aliasName, .inner, .none⟩ ::
    clause.joins.map WrittenJoin.toJoin⟩

end Trees

section Printing

def DottedName.print (name : DottedName) : List Token :=
  .ident name.first.val :: separated .dot name.more

def optionalWord (word : String) (written : Bool) : List Token :=
  if written then [wordToken word] else []

def printAlias : Option WrittenAlias → List Token
  | none => []
  | some written => optionalWord "AS" written.asWord ++ [.ident written.name.val]

def WrittenType.print : WrittenType → List Token
  | .inner innerWord => optionalWord "INNER" innerWord ++ [wordToken "JOIN"]
  | .left outerWord => wordToken "LEFT" :: (optionalWord "OUTER" outerWord ++ [wordToken "JOIN"])
  | .right outerWord => wordToken "RIGHT" :: (optionalWord "OUTER" outerWord ++ [wordToken "JOIN"])
  | .full outerWord => wordToken "FULL" :: (optionalWord "OUTER" outerWord ++ [wordToken "JOIN"])
  | .cross => [wordToken "CROSS", wordToken "JOIN"]

def WrittenConstraint.print : WrittenConstraint → List Token
  | .on condition => wordToken "ON" :: condition.tokens
  | .usingColumns first more =>
      wordToken "USING" :: .lParen :: .ident first.val :: (separated .comma more ++ [.rParen])
  | .none => []

def WrittenJoin.print (join : WrittenJoin) : List Token :=
  join.joinType.print ++ (join.table.print ++ (printAlias join.aliasName ++ join.constraint.print))

def printJoins (joins : List WrittenJoin) : List Token := joins.flatMap WrittenJoin.print

def WrittenFrom.print (clause : WrittenFrom) : List Token :=
  clause.table.print ++ (printAlias clause.aliasName ++ printJoins clause.joins)

def WrittenType.writesOuter : WrittenType → Bool
  | .left outerWord => outerWord
  | .right outerWord => outerWord
  | .full outerWord => outerWord
  | _ => false

/-- With the word `OUTER` in one of the joins. -/
def WrittenFrom.WritesOuter (clause : WrittenFrom) : Prop :=
  ∃ join ∈ clause.joins, join.joinType.writesOuter = true

end Printing

section Words

/-- The words that clauses are written with, but for `OUTER`. -/
def clauseWords : List String :=
  ["AS", "ON", "USING", "JOIN", "INNER", "LEFT", "RIGHT", "FULL", "CROSS"]

theorem wordToken_clauseWord : ∀ word ∈ clauseWords, wordToken word = .keyword word := by
  decide +kernel

theorem toUppercase_clauseWord : ∀ word ∈ clauseWords, toUppercase word = word := by
  decide +kernel

/-- The scanner does not know the word. -/
theorem wordToken_outer : wordToken "OUTER" = .ident "OUTER" := by decide +kernel

theorem keyword_clauseWord (word : String) (h : word ∈ clauseWords) :
    keyword word (.keyword word) = true :=
  decide_eq_true (toUppercase_clauseWord word h)

theorem keyword_otherWord (word word' : String) (h : word ∈ clauseWords) (hne : word ≠ word') :
    keyword word' (.keyword word) = false :=
  keyword_ne (keyword_clauseWord word h) hne

theorem EndsJoin.keyword_eq_false {t : Token} (h : EndsJoin t) {word : String}
    (hword : word ∈ ["AS", "ON", "USING"]) : keyword word t = false := by
  rcases h with rfl | h
  · rfl
  · cases t with
    | keyword k =>
        rw [keyword, decide_eq_false_iff_not]
        rintro rfl
        rw [joinWord] at h
        split at h
        · rename_i hk
          revert hword hk
          generalize toUppercase k = word
          intro hword hk
          simp only [List.mem_cons, List.not_mem_nil, or_false] at hword hk
          rcases hword with rfl | rfl | rfl <;> revert hk <;> decide
        · cases h
    | _ => rfl

theorem EndsJoin.identText_eq_none {t : Token} (h : EndsJoin t) : identText t = none := by
  rcases h with rfl | h
  · rfl
  · cases t with
    | ident s => cases h
    | _ => rfl

theorem EndsJoin.continueLevel_eq_none {t : Token} (h : EndsJoin t) : continueLevel t = none := by
  rcases h with rfl | h
  · rfl
  · cases t with
    | keyword k =>
        rw [joinWord] at h
        rw [continueLevel]
        split at h
        · rename_i hk
          revert hk
          generalize toUppercase k = word
          revert word
          decide
        · cases h
    | _ => cases h

theorem EndsJoin.ne_dot {t : Token} (h : EndsJoin t) : t ≠ .dot := by
  rcases h with rfl | h
  · decide
  · rintro rfl
    cases h

end Words

section Parts

theorem regular_name : Regular .eof 0 1 expectIdent expectIdent := regular_expectIdent

/-- Names behind the first one of a list. -/
theorem iterate_separated {separator t : Token} (hseparator : Token.eof ≠ separator)
    (ht : t ≠ separator) (more : List Name) (acc : List String) (rest : List Token) :
    iterate (moreItems (· = separator) expectIdent) acc (separated separator more ++ t :: rest) =
      .ok (acc ++ more.map Subtype.val) (t :: rest) := by
  induction more generalizing acc with
  | nil =>
      have hmore : moreItems (· = separator) expectIdent acc (t :: rest) =
          .ok (.inr acc) (t :: rest) := onToken_ne ht
      rw [separated, List.flatMap_nil, List.nil_append,
        iterate_eq (advances_moreItems regular_name (decide_eq_false hseparator)), hmore,
        List.map_nil, List.append_nil]
  | cons name more ih =>
      have hname : expectIdent (.ident name.val :: (separated separator more ++ t :: rest)) =
          .ok name.val (separated separator more ++ t :: rest) := rfl
      change iterate _ acc (separator :: .ident name.val :: (separated separator more ++ t :: rest))
        = _
      rw [iterate_moreItems regular_name (decide_eq_false hseparator) (decide_eq_true rfl),
        itemsFrom, bind_ok hname, ih, List.append_assoc]
      rfl

theorem sepBy_separated {separator t : Token} (hseparator : Token.eof ≠ separator)
    (ht : t ≠ separator) (first : Name) (more : List Name) (rest : List Token) :
    sepBy (· = separator) expectIdent
        (.ident first.val :: (separated separator more ++ t :: rest)) =
      .ok (first.val :: more.map Subtype.val) (t :: rest) := by
  have hfirst : expectIdent (.ident first.val :: (separated separator more ++ t :: rest)) =
      .ok first.val (separated separator more ++ t :: rest) := rfl
  rw [sepBy, bind_ok hfirst, iterate_separated hseparator ht]
  rfl

theorem parseTableRef_print (r : Calls) (name : DottedName) {t : Token} (ht : t ≠ .dot)
    (rest : List Token) :
    parseTableRef r (name.print ++ t :: rest) = .ok name.toTable (t :: rest) := by
  have hparts := sepBy_separated (by decide) ht name.first name.more rest
  have hname : objectName (.ident name.first.val :: (separated .dot name.more ++ t :: rest)) =
      .ok ⟨name.first.val :: name.more.map Subtype.val⟩ (t :: rest) := by
    rw [objectName, bind_ok hparts]
    rfl
  rw [DottedName.print, List.cons_append, parseTableRef, onToken_ne (by simp), bind_ok hname]
  rfl

theorem tableAlias_print (aliasName : Option WrittenAlias) {t : Token}
    (has : keyword "AS" t = false) (hident : identText t = none) (rest : List Token) :
    tableAlias (printAlias aliasName ++ t :: rest) = .ok (aliasText aliasName) (t :: rest) := by
  cases aliasName with
  | none =>
      rw [printAlias, List.nil_append, tableAlias, onToken_neg has, onSome_cons_neg hident]
      rfl
  | some written =>
      obtain ⟨asWord, name⟩ := written
      cases asWord with
      | false => rfl
      | true =>
          have hword : wordToken "AS" = .keyword "AS" := wordToken_clauseWord _ (by decide)
          change tableAlias (wordToken "AS" :: .ident name.val :: t :: rest) = _
          rw [hword, tableAlias, onToken_pos (keyword_clauseWord _ (by decide))]
          rfl

theorem parenthesized_ok {α : Type} {p : SqlParser α} {ts rest : List Token} {a : α}
    (h : p ts = .ok a (.rParen :: rest)) :
    parenthesized p (.lParen :: ts) = .ok a rest := by
  have hopen : expect .lParen (.lParen :: ts) = .ok () ts := onToken_self _ _
  have hclose : expect .rParen (.rParen :: rest) = .ok () rest := onToken_self _ _
  rw [parenthesized, bind_ok hopen, bind_ok h, bind_ok hclose]
  rfl

def WrittenConstraint.depth : WrittenConstraint → Nat
  | .on condition => condition.depth
  | _ => 0

theorem joinConstraint_print {fuel : Nat} (constraint : WrittenConstraint)
    (hdepth : constraint.depth ≤ fuel) {t : Token} (ht : EndsJoin t) (rest : List Token) :
    joinConstraint (calls fuel) (constraint.print ++ t :: rest) =
      .ok constraint.toConstraint (t :: rest) := by
  cases constraint with
  | on condition =>
      have hword : wordToken "ON" = .keyword "ON" := wordToken_clauseWord _ (by decide)
      rw [WrittenConstraint.print, List.cons_append, hword, joinConstraint,
        onToken_pos (keyword_clauseWord _ (by decide)),
        bind_ok (condition.parsed fuel t rest hdepth ht)]
      rfl
  | usingColumns first more =>
      have hword : wordToken "USING" = .keyword "USING" := wordToken_clauseWord _ (by decide)
      have hcolumns : commaSeparated expectIdent
          (.ident first.val :: (separated .comma more ++ .rParen :: t :: rest)) =
            .ok (first.val :: more.map Subtype.val) (.rParen :: t :: rest) :=
        sepBy_separated (by decide) (by decide) first more (t :: rest)
      rw [WrittenConstraint.print, List.cons_append, List.cons_append, List.cons_append,
        List.append_assoc, List.singleton_append, hword, joinConstraint,
        onToken_neg (keyword_otherWord _ _ (by decide) (by decide)),
        onToken_pos (keyword_clauseWord _ (by decide))]
      rw [bind_ok (parenthesized_ok hcolumns)]
      rfl
  | none =>
      rw [WrittenConstraint.print, List.nil_append, joinConstraint,
        onToken_neg (ht.keyword_eq_false (by decide)),
        onToken_neg (ht.keyword_eq_false (by decide))]
      rfl

theorem outerWord_other (word : String) {t : Token} (ht : keyword "OUTER" t = false)
    (ts : List Token) : outerWord word (t :: ts) = .ok false (t :: ts) := by
  rw [outerWord]
  split
  · exact onToken_neg ht
  · rfl

theorem parseJoinType_join {word : String} (hne : word ≠ "JOIN") (ts : List Token) :
    parseJoinType word (.keyword "JOIN" :: ts) = .ok (joinTypeNamed word) ts := by
  have hother := outerWord_other word
    (keyword_otherWord "JOIN" "OUTER" (by decide) (by decide)) ts
  have hjoin : expectKeyword "JOIN" (.keyword "JOIN" :: ts) = .ok () ts :=
    expectKeyword_ok (keyword_clauseWord _ (by decide))
  rw [parseJoinType, if_neg hne, bind_ok hother, bind_ok hjoin]
  rfl

/-- An identifier is not the word `OUTER`. -/
theorem parseJoinType_ident {word : String} (hne : word ≠ "JOIN") (s : String)
    (ts : List Token) :
    parseJoinType word (.ident s :: ts) = .error (.expectedKeyword "JOIN" (.ident s)) := by
  rw [parseJoinType, if_neg hne, bind_ok (outerWord_other word rfl ts)]
  rfl

/-- The first word of a join and what is behind it. -/
structure BeginsJoin (joinType : WrittenType) (t : Token) (word : String) (tail : List Token) :
    Prop where
  print : joinType.print = t :: tail
  begins : joinWord t = some word
  parsed : joinType.writesOuter = false → ∀ ts,
    parseJoinType word (tail ++ ts) = .ok joinType.toJoinType ts
  failed : joinType.writesOuter = true → ∀ ts, ∃ e, parseJoinType word (tail ++ ts) = .error e

/-- The words of the types that `JOIN` follows. -/
def typeWords : List String := ["INNER", "LEFT", "RIGHT", "FULL", "CROSS"]

theorem clauseWord_typeWord : ∀ word ∈ typeWords, word ∈ clauseWords ∧ word ≠ "JOIN" := by
  decide

theorem joinWord_typeWord : ∀ word ∈ typeWords, joinWord (.keyword word) = some word := by
  decide +kernel

theorem wordToken_join : wordToken "JOIN" = .keyword "JOIN" :=
  wordToken_clauseWord "JOIN" (by decide)

theorem beginsJoin_word {joinType : WrittenType} (word : String) (hword : word ∈ typeWords)
    (hprint : joinType.print = [wordToken word, wordToken "JOIN"])
    (hnamed : joinTypeNamed word = joinType.toJoinType) (houter : joinType.writesOuter = false) :
    BeginsJoin joinType (.keyword word) word [.keyword "JOIN"] where
  print := by rw [hprint, wordToken_clauseWord word (clauseWord_typeWord word hword).1,
    wordToken_join]
  begins := joinWord_typeWord word hword
  parsed _ ts := by
    rw [← hnamed]
    exact parseJoinType_join (clauseWord_typeWord word hword).2 ts
  failed h := by
    rw [houter] at h
    cases h

theorem beginsJoin_outer {joinType : WrittenType} (word : String) (hword : word ∈ typeWords)
    (hprint : joinType.print = [wordToken word, wordToken "OUTER", wordToken "JOIN"])
    (houter : joinType.writesOuter = true) :
    BeginsJoin joinType (.keyword word) word [.ident "OUTER", .keyword "JOIN"] where
  print := by rw [hprint, wordToken_clauseWord word (clauseWord_typeWord word hword).1,
    wordToken_outer, wordToken_join]
  begins := joinWord_typeWord word hword
  parsed h := by
    rw [houter] at h
    cases h
  failed _ ts := ⟨_, parseJoinType_ident (clauseWord_typeWord word hword).2 "OUTER" _⟩

theorem beginsJoin_bare : BeginsJoin (.inner false) (.keyword "JOIN") "JOIN" [] where
  print := congrArg (fun t => [t]) wordToken_join
  begins := by decide +kernel
  parsed _ ts := rfl
  failed h := by cases h

theorem exists_beginsJoin (joinType : WrittenType) :
    ∃ t word tail, BeginsJoin joinType t word tail := by
  cases joinType with
  | inner innerWord =>
      cases innerWord with
      | false => exact ⟨_, _, _, beginsJoin_bare⟩
      | true => exact ⟨_, _, _, beginsJoin_word "INNER" (by decide) rfl rfl rfl⟩
  | left outerWord =>
      cases outerWord with
      | false => exact ⟨_, _, _, beginsJoin_word "LEFT" (by decide) rfl rfl rfl⟩
      | true => exact ⟨_, _, _, beginsJoin_outer "LEFT" (by decide) rfl rfl⟩
  | right outerWord =>
      cases outerWord with
      | false => exact ⟨_, _, _, beginsJoin_word "RIGHT" (by decide) rfl rfl rfl⟩
      | true => exact ⟨_, _, _, beginsJoin_outer "RIGHT" (by decide) rfl rfl⟩
  | full outerWord =>
      cases outerWord with
      | false => exact ⟨_, _, _, beginsJoin_word "FULL" (by decide) rfl rfl rfl⟩
      | true => exact ⟨_, _, _, beginsJoin_outer "FULL" (by decide) rfl rfl⟩
  | cross => exact ⟨_, _, _, beginsJoin_word "CROSS" (by decide) rfl rfl rfl⟩

end Parts

section Joins

/-- What stands behind the name of a table is not a dot. -/
theorem exists_behindTable (aliasName : Option WrittenAlias) {t : Token} (ht : t ≠ .dot)
    (rest : List Token) :
    ∃ t' rest', printAlias aliasName ++ t :: rest = t' :: rest' ∧ t' ≠ .dot := by
  cases aliasName with
  | none => exact ⟨t, rest, rfl, ht⟩
  | some written =>
      obtain ⟨asWord, name⟩ := written
      cases asWord with
      | false => exact ⟨.ident name.val, t :: rest, rfl, by simp⟩
      | true =>
          have hword : wordToken "AS" = .keyword "AS" := wordToken_clauseWord _ (by decide)
          refine ⟨wordToken "AS", .ident name.val :: t :: rest, rfl, ?_⟩
          rw [hword]
          simp

/-- The tokens that end the table of a clause and its alias. -/
structure EndsTable (t : Token) : Prop where
  dot : t ≠ .dot
  asWord : keyword "AS" t = false
  ident : identText t = none

theorem EndsJoin.endsTable {t : Token} (h : EndsJoin t) : EndsTable t :=
  ⟨h.ne_dot, h.keyword_eq_false (by decide), h.identText_eq_none⟩

theorem exists_endsTable (constraint : WrittenConstraint) {t : Token} (ht : EndsJoin t)
    (rest : List Token) :
    ∃ t' rest', constraint.print ++ t :: rest = t' :: rest' ∧ EndsTable t' := by
  have hends : ∀ word ∈ ["ON", "USING"], EndsTable (wordToken word) := by
    intro word hword
    have hclause : word ∈ clauseWords := by
      revert hword
      revert word
      decide
    rw [wordToken_clauseWord word hclause]
    refine ⟨by simp, keyword_otherWord word "AS" hclause ?_, rfl⟩
    rintro rfl
    revert hword
    decide
  cases constraint with
  | on condition => exact ⟨_, _, rfl, hends "ON" (by decide)⟩
  | usingColumns first more => exact ⟨_, _, rfl, hends "USING" (by decide)⟩
  | none => exact ⟨t, rest, rfl, ht.endsTable⟩

/-- A table and its alias. -/
theorem table_print (r : Calls) {β : Type} (table : DottedName) (aliasName : Option WrittenAlias)
    {t : Token} (ht : EndsTable t) (rest : List Token)
    (f : TableRef SelectStatement → Option String → SqlParser β) :
    (parseTableRef r >>= fun table => tableAlias >>= fun aliasName => f table aliasName)
        (table.print ++ (printAlias aliasName ++ t :: rest)) =
      f table.toTable (aliasText aliasName) (t :: rest) := by
  obtain ⟨t', rest', htokens, hdot⟩ := exists_behindTable aliasName ht.dot rest
  have htable := parseTableRef_print r table hdot rest'
  rw [← htokens] at htable
  rw [bind_ok htable, bind_ok (tableAlias_print aliasName ht.asWord ht.ident rest)]

variable {fuel : Nat}

theorem parseJoin_print {join : WrittenJoin} {word : String} {t : Token} {tail : List Token}
    (hbegins : BeginsJoin join.joinType t word tail)
    (houter : join.joinType.writesOuter = false) (hdepth : join.constraint.depth ≤ fuel)
    {next : Token} (hnext : EndsJoin next) (rest : List Token) :
    parseJoin (calls fuel) word
        (tail ++ (join.table.print ++ (printAlias join.aliasName ++
          (join.constraint.print ++ next :: rest)))) =
      .ok join.toJoin (next :: rest) := by
  obtain ⟨t', rest', htokens, hends⟩ := exists_endsTable join.constraint hnext rest
  have hconstraint := joinConstraint_print join.constraint hdepth hnext rest
  rw [htokens] at hconstraint ⊢
  rw [parseJoin, bind_ok (hbegins.parsed houter _), table_print _ _ _ hends, bind_ok hconstraint]
  rfl

def joinStep (r : Calls) (joins : List (Join Expr SelectStatement)) :
    SqlParser (List (Join Expr SelectStatement) ⊕ FromClause Expr SelectStatement) :=
  onSome joinWord (fun word => do let join ← parseJoin r word; pure (.inl (joins ++ [join])))
    (pure (.inr ⟨joins⟩))

theorem parseFromClause_eq (r : Calls) :
    parseFromClause r = (do
      let table ← parseTableRef r
      let aliasName ← tableAlias
      iterate (joinStep r) [⟨table, aliasName, .inner, .none⟩]) := rfl

theorem advances_joinStep (joins : List (Join Expr SelectStatement)) :
    Advances .eof 0 (joinStep (calls fuel) joins) (joinStep (calls fuel) joins) :=
  Advances.onSome rfl
    (fun word => (regular_parseJoin (regularCalls fuel) word).bind fun _ => regular_pure _)
    (advances_done _)

/-- The tokens of a join and of those behind it. -/
theorem printJoins_cons {join : WrittenJoin} {t : Token} {tail : List Token}
    (hprint : join.joinType.print = t :: tail) (joins : List WrittenJoin) :
    printJoins (join :: joins) ++ [.eof] =
      t :: (tail ++ (join.table.print ++ (printAlias join.aliasName ++
        (join.constraint.print ++ (printJoins joins ++ [.eof]))))) := by
  rw [printJoins, List.flatMap_cons, WrittenJoin.print, hprint]
  simp only [List.cons_append, List.append_assoc]
  rfl

/-- The joins are followed by the end of the clause. -/
theorem exists_endsJoin (joins : List WrittenJoin) :
    ∃ t rest, printJoins joins ++ [.eof] = t :: rest ∧ EndsJoin t := by
  cases joins with
  | nil => exact ⟨.eof, [], rfl, .inl rfl⟩
  | cons join joins =>
      obtain ⟨t, word, tail, hbegins⟩ := exists_beginsJoin join.joinType
      refine ⟨t, _, printJoins_cons hbegins.print joins, .inr ?_⟩
      rw [hbegins.begins]
      rfl

theorem iterate_joins {joins : List WrittenJoin}
    (hdepth : ∀ join ∈ joins, join.constraint.depth ≤ fuel)
    (houter : ∀ join ∈ joins, join.joinType.writesOuter = false)
    (acc : List (Join Expr SelectStatement)) :
    iterate (joinStep (calls fuel)) acc (printJoins joins ++ [.eof]) =
      .ok ⟨acc ++ joins.map WrittenJoin.toJoin⟩ [.eof] := by
  induction joins generalizing acc with
  | nil =>
      have hstep : joinStep (calls fuel) acc [.eof] = .ok (.inr ⟨acc⟩) [.eof] := rfl
      change iterate (joinStep (calls fuel)) acc [.eof] = _
      rw [iterate_eq advances_joinStep, hstep, List.map_nil, List.append_nil]
  | cons join joins ih =>
      obtain ⟨t, word, tail, hbegins⟩ := exists_beginsJoin join.joinType
      obtain ⟨next, rest, hnext, hends⟩ := exists_endsJoin joins
      have hjoin := parseJoin_print hbegins (houter join List.mem_cons_self)
        (hdepth join List.mem_cons_self) hends rest
      rw [← hnext] at hjoin
      rw [printJoins_cons hbegins.print, iterate_eq advances_joinStep, joinStep,
        onSome_cons_pos hbegins.begins, bind_ok hjoin]
      change iterate (joinStep (calls fuel)) (acc ++ [join.toJoin]) _ = _
      rw [ih (fun join hjoin => hdepth join (List.mem_cons_of_mem _ hjoin))
        (fun join hjoin => houter join (List.mem_cons_of_mem _ hjoin)), List.append_assoc]
      rfl

/-- The first join with the word stops the parser. -/
theorem iterate_joins_outer {joins : List WrittenJoin}
    (hdepth : ∀ join ∈ joins, join.constraint.depth ≤ fuel)
    (houter : ∃ join ∈ joins, join.joinType.writesOuter = true)
    (acc : List (Join Expr SelectStatement)) :
    ∃ e, iterate (joinStep (calls fuel)) acc (printJoins joins ++ [.eof]) = .error e := by
  induction joins generalizing acc with
  | nil =>
      obtain ⟨join, hjoin, -⟩ := houter
      cases hjoin
  | cons join joins ih =>
      obtain ⟨t, word, tail, hbegins⟩ := exists_beginsJoin join.joinType
      rw [printJoins_cons hbegins.print, iterate_eq advances_joinStep, joinStep,
        onSome_cons_pos hbegins.begins]
      cases hwrites : join.joinType.writesOuter with
      | true =>
          obtain ⟨e, hfailed⟩ := hbegins.failed hwrites (join.table.print ++
            (printAlias join.aliasName ++ (join.constraint.print ++ (printJoins joins ++ [.eof]))))
          refine ⟨e, ?_⟩
          rw [parseJoin, bind_error (bind_error hfailed)]
      | false =>
          obtain ⟨next, rest, hnext, hends⟩ := exists_endsJoin joins
          have hjoin := parseJoin_print hbegins hwrites (hdepth join List.mem_cons_self) hends rest
          rw [← hnext] at hjoin
          rw [bind_ok hjoin]
          refine ih (fun join hjoin => hdepth join (List.mem_cons_of_mem _ hjoin)) ?_ _
          obtain ⟨outer, hmem, houter⟩ := houter
          rcases List.mem_cons.mp hmem with rfl | hmem
          · rw [hwrites] at houter
            cases houter
          · exact ⟨outer, hmem, houter⟩

end Joins

section Clauses

theorem parseFromClause_print (clause : WrittenFrom) (fuel : Nat) :
    parseFromClause (calls fuel) (clause.print ++ [.eof]) =
      iterate (joinStep (calls fuel))
        [⟨clause.table.toTable, aliasText clause.aliasName, .inner, .none⟩]
        (printJoins clause.joins ++ [.eof]) := by
  obtain ⟨t, rest, htokens, hends⟩ := exists_endsJoin clause.joins
  rw [WrittenFrom.print, List.append_assoc, List.append_assoc, htokens, parseFromClause_eq,
    table_print _ _ _ hends.endsTable]

/-- As deep as the deepest of the conditions. -/
theorem exists_depth (joins : List WrittenJoin) :
    ∃ fuel, ∀ join ∈ joins, join.constraint.depth ≤ fuel := by
  induction joins with
  | nil => exact ⟨0, fun join hjoin => by cases hjoin⟩
  | cons join joins ih =>
      obtain ⟨fuel, hfuel⟩ := ih
      refine ⟨max join.constraint.depth fuel, ?_⟩
      rw [List.forall_mem_cons]
      refine ⟨Nat.le_max_left _ _, fun join hjoin => ?_⟩
      exact Nat.le_trans (hfuel join hjoin) (Nat.le_max_right _ _)

/-- A clause is read back from every text it is written as, exactly if none of its joins
is written with the word `OUTER`. -/
theorem parseFromClause_text_iff (clause : WrittenFrom) {sql : String}
    (htext : Writes clause.print sql.toList) :
    (∃ fuel, parseFromClause (calls fuel) (tokenize sql) = .ok clause.toClause [.eof]) ↔
      ¬clause.WritesOuter := by
  rw [tokenize_of_writes htext]
  obtain ⟨depth, hdepth⟩ := exists_depth clause.joins
  constructor
  · rintro ⟨fuel, hfuel⟩ houter
    have hdeep : ∀ join ∈ clause.joins, join.constraint.depth ≤ max fuel depth :=
      fun join hjoin => Nat.le_trans (hdepth join hjoin) (Nat.le_max_right _ _)
    obtain ⟨e, he⟩ := iterate_joins_outer hdeep houter
      [⟨clause.table.toTable, aliasText clause.aliasName, .inner, .none⟩]
    rw [← parseFromClause_print] at he
    -- More fuel does not turn the clause into an error.
    rcases (regular_parseFromClause (regular_calls (Nat.le_max_left fuel depth))).agrees
      (clause.print ++ [.eof]) with hagrees | hunfinished
    · rw [hagrees, he] at hfuel
      cases hfuel
    · rw [hunfinished] at hfuel
      cases hfuel
  · intro houter
    refine ⟨depth, ?_⟩
    have hnone : ∀ join ∈ clause.joins, join.joinType.writesOuter = false := by
      intro join hjoin
      rw [← Bool.not_eq_true]
      exact fun hwrites => houter ⟨join, hjoin, hwrites⟩
    rw [parseFromClause_print, iterate_joins hdepth hnone]
    rfl

/-- Printed expressions are conditions. -/
def plainCondition (expr : PlainExpr) : Condition where
  expr := expr.toExpr
  tokens := expr.print
  depth := expr.print.length + 1
  parsed fuel t rest hfuel ht := by
    obtain ⟨fuel, rfl⟩ : ∃ n, fuel = n + 1 := ⟨fuel - 1, by omega⟩
    exact (roundTrips expr).parseExpr (Nat.le_of_succ_le_succ hfuel) ht.continueLevel_eq_none rest

/-- The clause `t a LEFT JOIN u ON x = y`, with or without `OUTER`. -/
def sampleFrom (outerWord : Bool) : WrittenFrom :=
  let name (s : String) (h : toUppercase s ∉ keywords) : Name := ⟨s, h⟩
  let x := name "x" (by decide +kernel)
  let y := name "y" (by decide +kernel)
  { table := ⟨name "t" (by decide +kernel), []⟩
    aliasName := some ⟨false, name "a" (by decide +kernel)⟩
    joins :=
      [{  joinType := .left outerWord
          table := ⟨name "u" (by decide +kernel), []⟩
          aliasName := none
          constraint :=
            .on (plainCondition (.binaryOp (.identifier x) .equals (.identifier y))) }] }

theorem writes_joined :
    Writes [wordToken "JOIN", wordToken "u", wordToken "ON", wordToken "x", .eq, wordToken "y"]
      "JOIN u ON x = y ".toList := by
  have heq : TextOf .eq ['='] fun _ => false := .punctuation rfl
  have hright : Writes [.eq, wordToken "y"] "= y ".toList :=
    .token heq (fun _ _ => rfl) (.blank rfl (Writes.done.word "y" rfl))
  exact (((hright.word "x" rfl).word "ON" rfl).word "u" rfl).word "JOIN" rfl

/-- The scanner reads the names as names. -/
theorem wordToken_sampleName :
    ∀ word ∈ ["t", "a", "u", "x", "y"], wordToken word = .ident word := by
  decide +kernel

theorem print_sampleFrom (outerWord : Bool) :
    (sampleFrom outerWord).print =
      wordToken "t" :: wordToken "a" :: wordToken "LEFT" :: (optionalWord "OUTER" outerWord ++
        [wordToken "JOIN", wordToken "u", wordToken "ON", wordToken "x", .eq, wordToken "y"]) := by
  rw [wordToken_sampleName "t" (by decide), wordToken_sampleName "a" (by decide),
    wordToken_sampleName "u" (by decide), wordToken_sampleName "x" (by decide),
    wordToken_sampleName "y" (by decide)]
  cases outerWord with
  | false => rfl
  | true => rfl

theorem writes_sampleFrom : Writes (sampleFrom false).print "t a LEFT JOIN u ON x = y ".toList := by
  rw [print_sampleFrom]
  exact ((writes_joined.word "LEFT" rfl).word "a" rfl).word "t" rfl

theorem writes_sampleOuter :
    Writes (sampleFrom true).print "t a LEFT OUTER JOIN u ON x = y ".toList := by
  rw [print_sampleFrom]
  exact (((writes_joined.word "OUTER" rfl).word "LEFT" rfl).word "a" rfl).word "t" rfl

theorem parseFromClause_text_sample :
    ∃ fuel, parseFromClause (calls fuel) (tokenize "t a LEFT JOIN u ON x = y ") =
      .ok (sampleFrom false).toClause [.eof] := by
  refine (parseFromClause_text_iff (sampleFrom false) writes_sampleFrom).mpr ?_
  rintro ⟨join, hjoin, houter⟩
  rw [List.mem_singleton.mp hjoin] at houter
  cases houter

/-- `OUTER` is read as a name where `JOIN` is expected. -/
theorem parseFromClause_outer :
    Writes (sampleFrom true).print "t a LEFT OUTER JOIN u ON x = y ".toList ∧
      ¬∃ fuel, parseFromClause (calls fuel) (tokenize "t a LEFT OUTER JOIN u ON x = y ") =
        .ok (sampleFrom true).toClause [.eof] := by
  refine ⟨writes_sampleOuter, ?_⟩
  have htokens : tokenize "t a LEFT OUTER JOIN u ON x = y " =
      [.ident "t", .ident "a", .keyword "LEFT", .ident "OUTER", .keyword "JOIN", .ident "u",
        .keyword "ON", .ident "x", .eq, .ident "y", .eof] := by
    rw [tokenize_of_writes writes_sampleOuter, print_sampleFrom, optionalWord, if_pos rfl,
      wordToken_sampleName "t" (by decide), wordToken_sampleName "a" (by decide),
      wordToken_sampleName "u" (by decide), wordToken_sampleName "x" (by decide),
      wordToken_sampleName "y" (by decide), wordToken_clauseWord "LEFT" (by decide),
      wordToken_clauseWord "JOIN" (by decide), wordToken_clauseWord "ON" (by decide),
      wordToken_outer]
    rfl
  rintro ⟨fuel, hfuel⟩
  have herror : parseFromClause (calls fuel) (tokenize "t a LEFT OUTER JOIN u ON x = y ") =
      .error (.expectedKeyword "JOIN" (.ident "OUTER")) := by
    rw [htokens]
    rfl
  rw [herror] at hfuel
  cases hfuel

end Clauses

end PostgressRs.Sql.FromClauseRoundTrip
