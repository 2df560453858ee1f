import PostgressRs.Protocol.CopyData
import PostgressRs.Types.VectorInvariant

/-!
What `to_tsquery` makes of a query printed without parentheses.  The query is a
disjunction of conjunctions of literals; the parser cuts at `&` first, so what
it returns is a conjunction of disjunctions of the same literals.
-/

namespace PostgressRs.Types.QueryPrecedence

open PostgressRs.Btree.GinIndex
open PostgressRs.Lib.TokenTexts
open PostgressRs.Protocol.CopyData
open PostgressRs.Server.Queries
open PostgressRs.Types.TextSearch
open PostgressRs.Types.VectorInvariant

section Syntax

/-- The standard text of a query without phrases. -/
def render : TsQuery → List Char
  | .lexeme text => text.toList
  | .and left right => render left ++ spaced andOp ++ render right
  | .or left right => render left ++ spaced orOp ++ render right
  | .not inner => '!' :: render inner
  | .phrase _ _ => []

/-- A word that is not written like an operator. -/
structure SingleWord (text : String) : Prop where
  ne_nil : text.toList ≠ []
  noSpace : ∀ char ∈ text.toList, isWhitespace char = false
  noMark : text.toList.head? ≠ some '!'
  ne_andOp : text.toList ≠ andOp
  ne_orOp : text.toList ≠ orOp

inductive Conjunctive : TsQuery → Prop
  | lexeme {text : String} : SingleWord text → Conjunctive (.lexeme text)
  | not {text : String} : SingleWord text → Conjunctive (.not (.lexeme text))
  | and {left right : TsQuery} :
      Conjunctive left → Conjunctive right → Conjunctive (.and left right)

/-- No disjunction stands below a conjunction. -/
inductive Disjunctive : TsQuery → Prop
  | conjunctive {query : TsQuery} : Conjunctive query → Disjunctive query
  | or {left right : TsQuery} :
      Disjunctive left → Disjunctive right → Disjunctive (.or left right)

/-- A word or its negation. -/
structure Literal where
  negated : Bool
  text : String
deriving DecidableEq

def conjuncts : TsQuery → List Literal
  | .lexeme text => [⟨false, text⟩]
  | .not (.lexeme text) => [⟨true, text⟩]
  | .and left right => conjuncts left ++ conjuncts right
  | _ => []

/-- The groups of literals between the disjunctions. -/
def alternatives : TsQuery → List (List Literal)
  | .or left right => alternatives left ++ alternatives right
  | query => [conjuncts query]

/-- The last list of the first ones and the first list of the others become one. -/
def glue {α : Type} : List (List α) → List (List α) → List (List α)
  | [last], first :: rest => (last ++ first) :: rest
  | [], others => others
  | list :: lists, others => list :: glue lists others

/-- The groups of literals between the conjunctions, as they stand in the text. -/
def runs : TsQuery → List (List Literal)
  | .lexeme text => [[⟨false, text⟩]]
  | .not (.lexeme text) => [[⟨true, text⟩]]
  | .and left right => runs left ++ runs right
  | .or left right => glue (runs left) (runs right)
  | _ => []

def Literal.token (literal : Literal) : List Char :=
  if literal.negated then '!' :: literal.text.toList else literal.text.toList

def runTokens : List Literal → List (List Char)
  | [] => []
  | [literal] => [literal.token]
  | literal :: run => literal.token :: orOp :: runTokens run

def queryTokens : List (List Literal) → List (List Char)
  | [] => []
  | [run] => runTokens run
  | run :: runs => runTokens run ++ andOp :: queryTokens runs

/-- There is a run, no run is empty, and the literals are of single words. -/
structure WellRun (runs : List (List Literal)) : Prop where
  ne_nil : runs ≠ []
  run_ne_nil : ∀ run ∈ runs, run ≠ []
  singleWord : ∀ run ∈ runs, ∀ literal ∈ run, SingleWord literal.text

end Syntax

section Tokens

/-- A token is no whitespace and not nothing. -/
structure Visible (token : List Char) : Prop where
  ne_nil : token ≠ []
  noSpace : ∀ char ∈ token, isWhitespace char = false

theorem Visible.space_notMem {token : List Char} (h : Visible token) : ' ' ∉ token := by
  intro hmem
  have hspace := h.noSpace ' ' hmem
  revert hspace
  decide

theorem visible_andOp : Visible andOp :=
  ⟨List.cons_ne_nil _ _, List.forall_mem_singleton.mpr (by decide)⟩

theorem visible_orOp : Visible orOp :=
  ⟨List.cons_ne_nil _ _, List.forall_mem_singleton.mpr (by decide)⟩

theorem visible_token {literal : Literal} (h : SingleWord literal.text) :
    Visible literal.token := by
  unfold Literal.token
  split
  · refine ⟨List.cons_ne_nil _ _, ?_⟩
    intro char hchar
    rcases List.mem_cons.mp hchar with rfl | hchar
    · decide
    · exact h.noSpace char hchar
  · exact ⟨h.ne_nil, h.noSpace⟩

/-- No literal is written like an operator. -/
theorem token_ne_op {literal : Literal} (h : SingleWord literal.text) :
    literal.token ≠ andOp ∧ literal.token ≠ orOp := by
  unfold Literal.token
  split
  · refine ⟨?_, ?_⟩
    · intro heq
      cases (List.cons.inj heq).1
    · intro heq
      cases (List.cons.inj heq).1
  · exact ⟨h.ne_andOp, h.ne_orOp⟩

theorem runTokens_cons_cons (literal literal' : Literal) (run : List Literal) :
    runTokens (literal :: literal' :: run) =
      literal.token :: orOp :: runTokens (literal' :: run) := rfl

theorem queryTokens_cons_cons (run run' : List Literal) (runs : List (List Literal)) :
    queryTokens (run :: run' :: runs) = runTokens run ++ andOp :: queryTokens (run' :: runs) := rfl

/-- The tokens of a run begin with a literal. -/
theorem exists_runTokens_eq_cons {run : List Literal} (h : run ≠ []) :
    ∃ word tokens, runTokens run = word :: tokens := by
  cases run with
  | nil => exact absurd rfl h
  | cons literal run =>
      cases run with
      | nil => exact ⟨literal.token, [], rfl⟩
      | cons literal' run => exact ⟨literal.token, _, rfl⟩

theorem exists_queryTokens_eq_cons {runs : List (List Literal)} (h : WellRun runs) :
    ∃ word tokens, queryTokens runs = word :: tokens := by
  obtain ⟨run, rest, rfl⟩ := List.exists_cons_of_ne_nil h.ne_nil
  obtain ⟨word, tokens, hrun⟩ := exists_runTokens_eq_cons (h.run_ne_nil run List.mem_cons_self)
  cases rest with
  | nil => exact ⟨word, tokens, hrun⟩
  | cons run' rest =>
      rw [queryTokens_cons_cons, hrun]
      exact ⟨word, _, rfl⟩

theorem WellRun.tail {run run' : List Literal} {runs : List (List Literal)}
    (h : WellRun (run :: run' :: runs)) : WellRun (run' :: runs) :=
  ⟨List.cons_ne_nil _ _, fun r hr => h.run_ne_nil r (List.mem_cons_of_mem _ hr),
    fun r hr => h.singleWord r (List.mem_cons_of_mem _ hr)⟩

/-- What stands in the tokens of a run. -/
theorem mem_runTokens {run : List Literal} (h : ∀ literal ∈ run, SingleWord literal.text)
    {token : List Char} (htoken : token ∈ runTokens run) :
    Visible token ∧ token ≠ andOp := by
  induction run with
  | nil => cases htoken
  | cons literal run ih =>
      rw [List.forall_mem_cons] at h
      have hliteral := And.intro (visible_token h.1) (token_ne_op h.1).1
      cases run with
      | nil =>
          rw [List.mem_singleton.mp htoken]
          exact hliteral
      | cons literal' run =>
          rw [runTokens_cons_cons] at htoken
          rcases List.mem_cons.mp htoken with rfl | htoken
          · exact hliteral
          · rcases List.mem_cons.mp htoken with rfl | htoken
            · exact ⟨visible_orOp, by decide⟩
            · exact ih h.2 htoken

theorem visible_of_mem_queryTokens {runs : List (List Literal)}
    (h : ∀ run ∈ runs, ∀ literal ∈ run, SingleWord literal.text) {token : List Char}
    (htoken : token ∈ queryTokens runs) : Visible token := by
  induction runs with
  | nil => cases htoken
  | cons run runs ih =>
      rw [List.forall_mem_cons] at h
      cases runs with
      | nil => exact (mem_runTokens h.1 htoken).1
      | cons run' runs =>
          rw [queryTokens_cons_cons, List.mem_append, List.mem_cons] at htoken
          rcases htoken with hrun | rfl | hrest
          · exact (mem_runTokens h.1 hrun).1
          · exact visible_andOp
          · exact ih h.2 hrest

/-- A text of tokens has nothing to trim. -/
theorem trim_joined {tokens : List (List Char)} (h : ∀ token ∈ tokens, Visible token) :
    trim (joined ' ' tokens) = joined ' ' tokens := by
  have hne : ∀ token ∈ tokens, token ≠ [] := fun token htoken => (h token htoken).ne_nil
  rw [trim_eq_self_iff]
  constructor
  · intro htext
    obtain ⟨token, htoken, hmem⟩ := exists_mem_of_head? hne (List.head?_eq_some_head htext)
    exact (h token htoken).noSpace _ hmem
  · intro htext
    obtain ⟨token, htoken, hmem⟩ :=
      exists_mem_of_getLast? hne (List.getLast?_eq_some_getLast htext)
    exact (h token htoken).noSpace _ hmem

end Tokens

section Parsing

variable {text left right : List Char}

theorem toTsquery_of_and (htrim : trim text = text) (hne : text ≠ [])
    (hand : splitOnce (spaced andOp) text = some (left, right)) :
    toTsquery text = .and (toTsquery left) (toTsquery right) := by
  rw [toTsquery]
  simp only [htrim, if_neg hne]
  split
  · rename_i heq
    rw [htrim, hand] at heq
    cases heq
    rfl
  · rename_i heq
    rw [htrim, hand] at heq
    cases heq

theorem toTsquery_of_or (htrim : trim text = text) (hne : text ≠ [])
    (hand : splitOnce (spaced andOp) text = none)
    (hor : splitOnce (spaced orOp) text = some (left, right)) :
    toTsquery text = .or (toTsquery left) (toTsquery right) := by
  rw [toTsquery]
  simp only [htrim, if_neg hne]
  split
  · rename_i heq
    rw [htrim, hand] at heq
    cases heq
  · split
    · rename_i heq
      rw [htrim, hor] at heq
      cases heq
      rfl
    · rename_i heq
      rw [htrim, hor] at heq
      cases heq

/-- A text without a space is a literal. -/
theorem toTsquery_of_token (htrim : trim text = text) (hspace : ' ' ∉ text) :
    toTsquery text =
      if text.head? = some '!' then .not (toTsquery text.tail)
      else .lexeme (String.ofList text) := by
  have hnone : ∀ op, splitOnce (spaced op) text = none := fun op => splitOnce_eq_none hspace _
  rw [toTsquery]
  simp only [htrim]
  by_cases hne : text = []
  · subst hne
    rfl
  · rw [if_neg hne]
    split
    · rename_i heq
      rw [htrim, hnone] at heq
      cases heq
    · split
      · rename_i heq
        rw [htrim, hnone] at heq
        cases heq
      · split
        · rename_i heq
          rw [htrim, hnone] at heq
          cases heq
        · split
          · rename_i heq
            rw [htrim] at heq
            rw [heq]
            rfl
          · rename_i hmark
            rw [htrim]
            rw [if_neg]
            intro hhead
            obtain ⟨stripped, hstripped⟩ := List.head?_eq_some_iff.mp hhead
            exact hmark stripped (htrim.trans hstripped)

theorem toTsquery_word {word : String} (h : SingleWord word) :
    toTsquery word.toList = .lexeme word := by
  have hvisible : Visible word.toList := ⟨h.ne_nil, h.noSpace⟩
  have htrim := trim_joined (List.forall_mem_singleton.mpr hvisible)
  rw [joined_singleton] at htrim
  rw [toTsquery_of_token htrim hvisible.space_notMem, if_neg h.noMark, String.ofList_toList]

/-- The query of a literal. -/
def Literal.query (literal : Literal) : TsQuery :=
  if literal.negated then .not (.lexeme literal.text) else .lexeme literal.text

theorem toTsquery_literal {literal : Literal} (h : SingleWord literal.text) :
    toTsquery literal.token = literal.query := by
  have hvisible := visible_token h
  have htrim := trim_joined (List.forall_mem_singleton.mpr hvisible)
  rw [joined_singleton] at htrim
  cases hneg : literal.negated with
  | true =>
      have htoken : literal.token = '!' :: literal.text.toList := by
        rw [Literal.token, hneg, if_pos rfl]
      rw [toTsquery_of_token htrim hvisible.space_notMem, htoken, List.head?_cons, if_pos rfl,
        List.tail_cons, toTsquery_word h, Literal.query, hneg, if_pos rfl]
  | false =>
      have htoken : literal.token = literal.text.toList := by
        rw [Literal.token, hneg, if_neg Bool.false_ne_true]
      rw [htoken, toTsquery_word h, Literal.query, hneg, if_neg Bool.false_ne_true]

/-- A run is parsed as the disjunction of its first literal and the others. -/
theorem toTsquery_run {literal literal' : Literal} {run : List Literal}
    (h : ∀ l ∈ literal :: literal' :: run, SingleWord l.text) :
    toTsquery (joined ' ' (runTokens (literal :: literal' :: run))) =
      .or literal.query (toTsquery (joined ' ' (runTokens (literal' :: run)))) := by
  have htokens : ∀ token ∈ runTokens (literal :: literal' :: run),
      Visible token ∧ token ≠ andOp := fun token htoken => mem_runTokens h htoken
  have htrim := trim_joined fun token htoken => (htokens token htoken).1
  obtain ⟨word, rest, hrest⟩ := exists_runTokens_eq_cons (List.cons_ne_nil literal' run)
  rw [runTokens_cons_cons] at htokens htrim ⊢
  have hne : joined ' ' (literal.token :: orOp :: runTokens (literal' :: run)) ≠ [] :=
    joined_ne_nil (htokens _ List.mem_cons_self).1.ne_nil _
  have hand : splitOnce (spaced andOp)
      (joined ' ' (literal.token :: orOp :: runTokens (literal' :: run))) = none := by
    apply splitOnce_joined_eq_none visible_andOp.space_notMem
    · exact fun token htoken => (htokens token htoken).1.space_notMem
    · exact fun hmem => (htokens andOp (List.mem_cons_of_mem _ hmem)).2 rfl
  have hor : splitOnce (spaced orOp)
      (joined ' ' (literal.token :: orOp :: runTokens (literal' :: run))) =
        some (joined ' ' [literal.token], joined ' ' (runTokens (literal' :: run))) := by
    rw [hrest]
    have hword : ∀ token ∈ [literal.token], ' ' ∉ token :=
      List.forall_mem_singleton.mpr (htokens _ List.mem_cons_self).1.space_notMem
    exact splitOnce_joined visible_orOp.space_notMem hword List.not_mem_nil
  rw [toTsquery_of_or htrim hne hand hor, joined_singleton,
    toTsquery_literal (h literal List.mem_cons_self)]

/-- A query is parsed as the conjunction of its first run and the others. -/
theorem toTsquery_runs {run run' : List Literal} {runs : List (List Literal)}
    (h : WellRun (run :: run' :: runs)) :
    toTsquery (joined ' ' (queryTokens (run :: run' :: runs))) =
      .and (toTsquery (joined ' ' (runTokens run)))
        (toTsquery (joined ' ' (queryTokens (run' :: runs)))) := by
  have hrun := h.singleWord run List.mem_cons_self
  have hvisible : ∀ token ∈ queryTokens (run :: run' :: runs), Visible token :=
    fun token htoken => visible_of_mem_queryTokens h.singleWord htoken
  have htrim := trim_joined hvisible
  obtain ⟨word, before, hbefore⟩ :=
    exists_runTokens_eq_cons (h.run_ne_nil run List.mem_cons_self)
  obtain ⟨right, after, hafter⟩ := exists_queryTokens_eq_cons h.tail
  have htokens : ∀ token ∈ word :: before, Visible token ∧ token ≠ andOp := by
    rw [← hbefore]
    exact fun token htoken => mem_runTokens hrun htoken
  rw [queryTokens_cons_cons, hbefore, hafter, List.cons_append] at htrim ⊢
  have hne : joined ' ' (word :: (before ++ andOp :: right :: after)) ≠ [] :=
    joined_ne_nil (htokens word List.mem_cons_self).1.ne_nil _
  have hand : splitOnce (spaced andOp) (joined ' ' (word :: (before ++ andOp :: right :: after))) =
      some (joined ' ' (word :: before), joined ' ' (right :: after)) :=
    splitOnce_joined visible_andOp.space_notMem
      (fun token htoken => (htokens token htoken).1.space_notMem)
      (fun hmem => (htokens andOp (List.mem_cons_of_mem _ hmem)).2 rfl)
  exact toTsquery_of_and htrim hne hand

end Parsing

section Printing

theorem runTokens_append {run run' : List Literal} (h : run ≠ []) (h' : run' ≠ []) :
    runTokens (run ++ run') = runTokens run ++ orOp :: runTokens run' := by
  obtain ⟨first', rest', rfl⟩ := List.exists_cons_of_ne_nil h'
  induction run with
  | nil => exact absurd rfl h
  | cons literal run ih =>
      cases run with
      | nil => rfl
      | cons next run =>
          have hrest := ih (List.cons_ne_nil _ _)
          rw [List.cons_append] at hrest
          rw [List.cons_append, List.cons_append, runTokens_cons_cons, hrest,
            runTokens_cons_cons]
          rfl

variable {first others : List (List Literal)}

theorem WellRun.append (h : WellRun first) (h' : WellRun others) : WellRun (first ++ others) := by
  refine ⟨List.append_ne_nil_of_left_ne_nil h.ne_nil _, ?_, ?_⟩
  · intro run hrun
    rcases List.mem_append.mp hrun with hrun | hrun
    · exact h.run_ne_nil run hrun
    · exact h'.run_ne_nil run hrun
  · intro run hrun
    rcases List.mem_append.mp hrun with hrun | hrun
    · exact h.singleWord run hrun
    · exact h'.singleWord run hrun

theorem queryTokens_append (h : WellRun first) (h' : WellRun others) :
    queryTokens (first ++ others) = queryTokens first ++ andOp :: queryTokens others := by
  obtain ⟨run', runs', rfl⟩ := List.exists_cons_of_ne_nil h'.ne_nil
  induction first with
  | nil => exact absurd rfl h.ne_nil
  | cons run rest ih =>
      cases rest with
      | nil => rfl
      | cons next rest =>
          have hrest := ih h.tail
          rw [List.cons_append] at hrest
          rw [List.cons_append, List.cons_append, queryTokens_cons_cons, hrest,
            queryTokens_cons_cons, List.append_assoc, List.cons_append]

theorem glue_singleton (last run' : List Literal) (rest : List (List Literal)) :
    glue [last] (run' :: rest) = (last ++ run') :: rest := rfl

theorem glue_cons_cons (run next : List Literal) (rest others : List (List Literal)) :
    glue (run :: next :: rest) others = run :: glue (next :: rest) others := rfl

theorem glue_ne_nil (h : WellRun others) (first : List (List Literal)) :
    glue first others ≠ [] := by
  obtain ⟨run', runs', rfl⟩ := List.exists_cons_of_ne_nil h.ne_nil
  cases first with
  | nil => exact List.cons_ne_nil _ _
  | cons run rest =>
      cases rest with
      | nil => exact List.cons_ne_nil _ _
      | cons next rest => exact List.cons_ne_nil _ _

/-- A run of the glued query is one of either side, or made of one of each. -/
theorem mem_glue {run : List Literal} (h : run ∈ glue first others) :
    run ∈ first ∨ run ∈ others ∨ ∃ last ∈ first, ∃ run' ∈ others, run = last ++ run' := by
  induction first with
  | nil => exact .inr (.inl h)
  | cons head rest ih =>
      cases rest with
      | nil =>
          cases others with
          | nil => exact .inl h
          | cons run' others =>
              rw [glue_singleton] at h
              rcases List.mem_cons.mp h with rfl | h
              · exact .inr (.inr ⟨head, List.mem_cons_self, run', List.mem_cons_self, rfl⟩)
              · exact .inr (.inl (List.mem_cons_of_mem _ h))
      | cons next rest =>
          rw [glue_cons_cons] at h
          rcases List.mem_cons.mp h with rfl | h
          · exact .inl List.mem_cons_self
          · rcases ih h with hfirst | hothers | ⟨last, hlast, hrest⟩
            · exact .inl (List.mem_cons_of_mem _ hfirst)
            · exact .inr (.inl hothers)
            · exact .inr (.inr ⟨last, List.mem_cons_of_mem _ hlast, hrest⟩)

theorem WellRun.glue (h : WellRun first) (h' : WellRun others) :
    WellRun (QueryPrecedence.glue first others) := by
  refine ⟨glue_ne_nil h' first, ?_, ?_⟩
  · intro run hrun
    rcases mem_glue hrun with hrun | hrun | ⟨last, hlast, run', _, rfl⟩
    · exact h.run_ne_nil run hrun
    · exact h'.run_ne_nil run hrun
    · exact List.append_ne_nil_of_left_ne_nil (h.run_ne_nil last hlast) _
  · intro run hrun
    rcases mem_glue hrun with hrun | hrun | ⟨last, hlast, run', hrun', rfl⟩
    · exact h.singleWord run hrun
    · exact h'.singleWord run hrun
    · intro literal hliteral
      rcases List.mem_append.mp hliteral with hliteral | hliteral
      · exact h.singleWord last hlast literal hliteral
      · exact h'.singleWord run' hrun' literal hliteral

theorem queryTokens_glue (h : WellRun first) (h' : WellRun others) :
    queryTokens (glue first others) = queryTokens first ++ orOp :: queryTokens others := by
  induction first with
  | nil => exact absurd rfl h.ne_nil
  | cons run rest ih =>
      cases rest with
      | nil =>
          obtain ⟨run', rest', rfl⟩ := List.exists_cons_of_ne_nil h'.ne_nil
          have hrun := runTokens_append (h.run_ne_nil run List.mem_cons_self)
            (h'.run_ne_nil run' List.mem_cons_self)
          rw [glue_singleton]
          cases rest' with
          | nil => exact hrun
          | cons next' rest' =>
              rw [queryTokens_cons_cons, hrun, queryTokens_cons_cons, List.append_assoc]
              rfl
      | cons next rest =>
          obtain ⟨run', rest', hglue⟩ :=
            List.exists_cons_of_ne_nil (glue_ne_nil h' (next :: rest))
          have hrest := ih h.tail
          rw [hglue] at hrest
          rw [glue_cons_cons, hglue, queryTokens_cons_cons, hrest, queryTokens_cons_cons,
            List.append_assoc, List.cons_append]

theorem wellRun_literal {literal : Literal} (h : SingleWord literal.text) :
    WellRun [[literal]] := by
  refine ⟨List.cons_ne_nil _ _, ?_, ?_⟩
  · rw [List.forall_mem_singleton]
    exact List.cons_ne_nil _ _
  · rw [List.forall_mem_singleton, List.forall_mem_singleton]
    exact h

/-- Two printed queries with an operator between them. -/
theorem joined_operator {op : List Char} {tokens tokens' : List (List Char)}
    (h : ∃ word rest, tokens = word :: rest) (h' : ∃ word rest, tokens' = word :: rest) :
    joined ' ' tokens ++ spaced op ++ joined ' ' tokens' =
      joined ' ' (tokens ++ op :: tokens') := by
  obtain ⟨word, rest, rfl⟩ := h
  obtain ⟨word', rest', rfl⟩ := h'
  rw [joined_append, joined_cons_cons, spaced]
  simp

/-- A query is printed as the tokens of its runs. -/
theorem render_conjunctive {query : TsQuery} (h : Conjunctive query) :
    WellRun (runs query) ∧ render query = joined ' ' (queryTokens (runs query)) := by
  induction h with
  | lexeme hword => exact ⟨wellRun_literal hword, (joined_singleton _).symm⟩
  | not hword => exact ⟨wellRun_literal hword, (joined_singleton _).symm⟩
  | and _ _ ihleft ihright =>
      refine ⟨ihleft.1.append ihright.1, ?_⟩
      rw [render, ihleft.2, ihright.2, joined_operator (exists_queryTokens_eq_cons ihleft.1)
        (exists_queryTokens_eq_cons ihright.1), runs, queryTokens_append ihleft.1 ihright.1]

theorem render_disjunctive {query : TsQuery} (h : Disjunctive query) :
    WellRun (runs query) ∧ render query = joined ' ' (queryTokens (runs query)) := by
  induction h with
  | conjunctive h => exact render_conjunctive h
  | or _ _ ihleft ihright =>
      refine ⟨ihleft.1.glue ihright.1, ?_⟩
      rw [render, ihleft.2, ihright.2, joined_operator (exists_queryTokens_eq_cons ihleft.1)
        (exists_queryTokens_eq_cons ihright.1), runs, queryTokens_glue ihleft.1 ihright.1]

end Printing

section Meaning

variable [Letters]

def Literal.holds (v : TsVector) (literal : Literal) : Bool := tsMatch v literal.query

theorem tsMatch_run (v : TsVector) {run : List Literal} (hne : run ≠ [])
    (h : ∀ literal ∈ run, SingleWord literal.text) :
    tsMatch v (toTsquery (joined ' ' (runTokens run))) = run.any (Literal.holds v) := by
  induction run with
  | nil => exact absurd rfl hne
  | cons literal run ih =>
      cases run with
      | nil =>
          rw [runTokens, joined_singleton, toTsquery_literal (h literal List.mem_cons_self)]
          simp [Literal.holds]
      | cons literal' run =>
          have hrest := ih (List.cons_ne_nil _ _) fun l hl => h l (List.mem_cons_of_mem _ hl)
          rw [toTsquery_run h, tsMatch, hrest]
          rfl

/-- What is parsed is a conjunction of disjunctions. -/
theorem tsMatch_query (v : TsVector) {runs : List (List Literal)} (h : WellRun runs) :
    tsMatch v (toTsquery (joined ' ' (queryTokens runs))) =
      runs.all fun run => run.any (Literal.holds v) := by
  induction runs with
  | nil => exact absurd rfl h.ne_nil
  | cons run runs ih =>
      have hrun := tsMatch_run v (h.run_ne_nil run List.mem_cons_self)
        (h.singleWord run List.mem_cons_self)
      cases runs with
      | nil =>
          rw [queryTokens, hrun]
          simp
      | cons run' runs =>
          rw [toTsquery_runs h, tsMatch, hrun, ih h.tail]
          rfl

theorem tsMatch_conjuncts (v : TsVector) {query : TsQuery} (h : Conjunctive query) :
    tsMatch v query = (conjuncts query).all (Literal.holds v) := by
  induction h with
  | lexeme _ => simp [conjuncts, Literal.holds, Literal.query]
  | not _ => simp [conjuncts, Literal.holds, Literal.query]
  | and _ _ ihleft ihright => rw [tsMatch, conjuncts, List.all_append, ihleft, ihright]

omit [Letters] in
theorem alternatives_conjunctive {query : TsQuery} (h : Conjunctive query) :
    alternatives query = [conjuncts query] := by
  cases h <;> rfl

/-- What was printed is a disjunction of conjunctions. -/
theorem tsMatch_alternatives (v : TsVector) {query : TsQuery} (h : Disjunctive query) :
    tsMatch v query = (alternatives query).any fun group => group.all (Literal.holds v) := by
  induction h with
  | conjunctive h =>
      rw [alternatives_conjunctive h, tsMatch_conjuncts v h]
      simp
  | or _ _ ihleft ihright => rw [tsMatch, alternatives, List.any_append, ihleft, ihright]

omit [Letters] in
/-- What holds of the glued runs holds of the runs on one side. -/
theorem all_any_glue (p : Literal → Bool) {first others : List (List Literal)}
    (h : ((glue first others).all fun run => run.any p) = true) :
    (first.all fun run => run.any p) = true ∨ (others.all fun run => run.any p) = true := by
  induction first with
  | nil => exact .inl rfl
  | cons run rest ih =>
      cases rest with
      | nil =>
          cases others with
          | nil => exact .inr rfl
          | cons run' others =>
              simp only [glue, List.all_cons, List.any_append, Bool.and_eq_true,
                Bool.or_eq_true] at h
              rcases h with ⟨hrun | hrun', hothers⟩
              · left
                simpa using hrun
              · right
                rw [List.all_cons, hrun', hothers, Bool.and_self]
      | cons next rest =>
          rw [glue_cons_cons, List.all_cons, Bool.and_eq_true] at h
          rcases ih h.2 with hfirst | hothers
          · left
            rw [List.all_cons, h.1, hfirst, Bool.and_self]
          · exact .inr hothers

omit [Letters] in
theorem runs_conjunctive {query : TsQuery} (h : Conjunctive query) :
    runs query = (conjuncts query).map fun literal => [literal] := by
  induction h with
  | lexeme _ => rfl
  | not _ => rfl
  | and _ _ ihleft ihright => rw [runs, conjuncts, List.map_append, ihleft, ihright]

omit [Letters] in
/-- The parsed query is at least as strong as the printed one. -/
theorem any_all_of_all_any (p : Literal → Bool) {query : TsQuery} (h : Disjunctive query)
    (hruns : ((runs query).all fun run => run.any p) = true) :
    ((alternatives query).any fun group => group.all p) = true := by
  induction h with
  | conjunctive h =>
      rw [runs_conjunctive h, List.all_map] at hruns
      rw [alternatives_conjunctive h]
      simpa using hruns
  | or _ _ ihleft ihright =>
      rw [alternatives, List.any_append, Bool.or_eq_true]
      exact (all_any_glue p hruns).imp ihleft ihright

/-- The sign of a literal and its word in lower case. -/
def Literal.lowered (literal : Literal) : Bool × String :=
  (literal.negated, toLowercase literal.text)

/-- A word stands in the group both plain and negated. -/
def Clashes (group : List Literal) : Prop :=
  ∃ literal ∈ group, ∃ literal' ∈ group,
    toLowercase literal.text = toLowercase literal'.text ∧ literal.negated ≠ literal'.negated

/-- An alternative and a run that have a literal in common up to case, or one
of which is decided by a word that stands in it both plain and negated. -/
def Linked (group run : List Literal) : Prop :=
  (∃ literal ∈ group, ∃ literal' ∈ run, literal.lowered = literal'.lowered) ∨
    Clashes group ∨ Clashes run

/-- The word is in the vector. -/
def Present (v : TsVector) (word : String) : Prop := ∃ l ∈ v.lexemes, l.text = word

theorem holds_iff (v : TsVector) (literal : Literal) :
    literal.holds v = true ↔ (literal.negated = false ↔ Present v (toLowercase literal.text)) := by
  have hlexeme : tsMatch v (.lexeme literal.text) = true ↔
      Present v (toLowercase literal.text) := by
    rw [tsMatch, List.any_eq_true]
    simp only [decide_eq_true_iff]
    exact Iff.rfl
  cases hneg : literal.negated with
  | false =>
      rw [Literal.holds, Literal.query, hneg, if_neg Bool.false_ne_true, hlexeme]
      exact (iff_of_eq (true_iff _)).symm.trans (by simp)
  | true =>
      rw [Literal.holds, Literal.query, hneg, if_pos rfl, tsMatch, Bool.not_eq_true',
        ← Bool.not_eq_true, hlexeme]
      simp

/-- Of a word and its negation exactly one holds. -/
theorem holds_of_clash (v : TsVector) {literal literal' : Literal}
    (hword : toLowercase literal.text = toLowercase literal'.text)
    (hsign : literal.negated ≠ literal'.negated) :
    literal'.holds v = !literal.holds v := by
  have hnegated : literal'.negated = !literal.negated := (Bool.not_eq.mpr hsign).symm
  rw [Bool.eq_iff_iff, Bool.not_eq_true', ← Bool.not_eq_true, holds_iff, holds_iff, ← hword,
    hnegated]
  cases literal.negated with
  | false => simp
  | true => simp

/-- The vector of the words that make a group hold and a run fail. -/
def separating (group run : List Literal) : TsVector :=
  ⟨((group.filter fun literal => !literal.negated) ++ run.filter Literal.negated).map
    fun literal => ⟨toLowercase literal.text, []⟩⟩

theorem present_separating {group run : List Literal} {word : String} :
    Present (separating group run) word ↔
      (∃ literal ∈ group, literal.negated = false ∧ toLowercase literal.text = word) ∨
        ∃ literal ∈ run, literal.negated = true ∧ toLowercase literal.text = word := by
  unfold Present separating
  simp only [List.mem_map, List.mem_append, List.mem_filter, Bool.not_eq_true',
    exists_exists_and_eq_and]
  constructor
  · rintro ⟨literal, (⟨hmem, hneg⟩ | ⟨hmem, hneg⟩), hword⟩
    · exact .inl ⟨literal, hmem, hneg, hword⟩
    · exact .inr ⟨literal, hmem, hneg, hword⟩
  · rintro (⟨literal, hmem, hneg, hword⟩ | ⟨literal, hmem, hneg, hword⟩)
    · exact ⟨literal, .inl ⟨hmem, hneg⟩, hword⟩
    · exact ⟨literal, .inr ⟨hmem, hneg⟩, hword⟩

theorem separating_holds {group run : List Literal} (h : ¬ Linked group run) :
    group.all (Literal.holds (separating group run)) = true ∧
      run.any (Literal.holds (separating group run)) = false := by
  obtain ⟨hshared, hgroup, hrun⟩ : _ ∧ ¬ Clashes group ∧ ¬ Clashes run := by
    simpa only [Linked, not_or] using h
  constructor
  · rw [List.all_eq_true]
    intro literal hliteral
    rw [holds_iff, present_separating]
    constructor
    · exact fun hneg => .inl ⟨literal, hliteral, hneg, rfl⟩
    · rintro (⟨literal', hmem, hneg', hword⟩ | ⟨literal', hmem, hneg', hword⟩)
      · rw [← Bool.not_eq_true]
        intro hneg
        exact hgroup ⟨literal, hliteral, literal', hmem, hword.symm, by rw [hneg, hneg']; decide⟩
      · rw [← Bool.not_eq_true]
        intro hneg
        exact hshared
          ⟨literal, hliteral, literal', hmem, Prod.ext (hneg.trans hneg'.symm) hword.symm⟩
  · rw [List.any_eq_false]
    intro literal hliteral
    rw [holds_iff, present_separating]
    intro hiff
    cases hneg : literal.negated with
    | false =>
        rcases hiff.mp hneg with ⟨literal', hmem, hneg', hword⟩ | ⟨literal', hmem, hneg', hword⟩
        · exact hshared ⟨literal', hmem, literal, hliteral, Prod.ext (hneg'.trans hneg.symm) hword⟩
        · exact hrun ⟨literal, hliteral, literal', hmem, hword.symm, by rw [hneg, hneg']; decide⟩
    | true =>
        have hplain := hiff.mpr (.inr ⟨literal, hliteral, hneg, rfl⟩)
        rw [hneg] at hplain
        cases hplain

/-- In every vector an alternative makes a run hold exactly if they are linked. -/
theorem forall_all_imp_any_iff {group run : List Literal} :
    (∀ v, group.all (Literal.holds v) = true → run.any (Literal.holds v) = true) ↔
      Linked group run := by
  constructor
  · intro h
    by_contra hlinked
    obtain ⟨hall, hany⟩ := separating_holds hlinked
    rw [h _ hall] at hany
    cases hany
  · intro hlinked v hall
    rw [List.all_eq_true] at hall
    rw [List.any_eq_true]
    rcases hlinked with ⟨literal, hmem, literal', hmem', hsame⟩ | hclash | hclash
    · refine ⟨literal', hmem', ?_⟩
      have hholds := (holds_iff v literal).mp (hall literal hmem)
      have hsign : literal.negated = literal'.negated := congrArg Prod.fst hsame
      have hword : toLowercase literal.text = toLowercase literal'.text := congrArg Prod.snd hsame
      rw [holds_iff, ← hsign, ← hword]
      exact hholds
    · obtain ⟨literal, hmem, literal', hmem', hword, hsign⟩ := hclash
      have hholds := hall literal' hmem'
      rw [holds_of_clash v hword hsign, hall literal hmem] at hholds
      cases hholds
    · obtain ⟨literal, hmem, literal', hmem', hword, hsign⟩ := hclash
      cases hholds : literal.holds v with
      | true => exact ⟨literal, hmem, hholds⟩
      | false =>
          refine ⟨literal', hmem', ?_⟩
          rw [holds_of_clash v hword hsign, hholds]
          rfl

/-- The parser keeps the meaning of a printed query exactly if each of its
alternatives is linked to each of its runs. -/
theorem toTsquery_render_iff {query : TsQuery} (h : Disjunctive query) :
    (∀ v, tsMatch v (toTsquery (render query)) = tsMatch v query) ↔
      ∀ group ∈ alternatives query, ∀ run ∈ runs query, Linked group run := by
  obtain ⟨hruns, hrender⟩ := render_disjunctive h
  simp only [hrender, tsMatch_query _ hruns, tsMatch_alternatives _ h]
  constructor
  · intro heq group hgroup run hrun
    rw [← forall_all_imp_any_iff]
    intro v hall
    have hany : ((alternatives query).any fun group => group.all (Literal.holds v)) = true :=
      List.any_eq_true.mpr ⟨group, hgroup, hall⟩
    rw [← heq v, List.all_eq_true] at hany
    exact hany run hrun
  · intro hlinked v
    rw [Bool.eq_iff_iff]
    refine ⟨any_all_of_all_any _ h, ?_⟩
    rw [List.any_eq_true, List.all_eq_true]
    rintro ⟨group, hgroup, hall⟩ run hrun
    exact forall_all_imp_any_iff.mpr (hlinked group hgroup run hrun) v hall

end Meaning

section Ascii

attribute [local instance] asciiLetters

theorem singleWord_char {text : String} {char : Char} (htext : text.toList = [char])
    (hspace : isWhitespace char = false) (hmark : char ∉ ['!', '&', '|']) : SingleWord text where
  ne_nil := htext ▸ List.cons_ne_nil _ _
  noSpace := htext ▸ List.forall_mem_singleton.mpr hspace
  noMark hhead := by
    rw [htext, List.head?_cons, Option.some.injEq] at hhead
    exact hmark (by simp [hhead])
  ne_andOp hop := by
    have hchar : char = '&' := List.head_eq_of_cons_eq (htext.symm.trans hop)
    exact hmark (by simp [hchar])
  ne_orOp hop := by
    have hchar : char = '|' := List.head_eq_of_cons_eq (htext.symm.trans hop)
    exact hmark (by simp [hchar])

theorem singleWord_a : SingleWord "a" := singleWord_char rfl (by decide) (by decide)

theorem singleWord_b : SingleWord "b" := singleWord_char rfl (by decide) (by decide)

theorem singleWord_c : SingleWord "c" := singleWord_char rfl (by decide) (by decide)

/-- "a & b | c" -/
def mixedQuery : TsQuery := .or (.and (.lexeme "a") (.lexeme "b")) (.lexeme "c")

theorem disjunctive_mixedQuery : Disjunctive mixedQuery :=
  .or (.conjunctive (.and (.lexeme singleWord_a) (.lexeme singleWord_b)))
    (.conjunctive (.lexeme singleWord_c))

/-- The vector of "c" matches the query but not what is parsed from its text. -/
theorem mixedQuery_changed :
    Disjunctive mixedQuery ∧
      ∃ v, tsMatch v (toTsquery (render mixedQuery)) ≠ tsMatch v mixedQuery := by
  refine ⟨disjunctive_mixedQuery, ⟨[⟨"c", []⟩]⟩, ?_⟩
  obtain ⟨hruns, hrender⟩ := render_disjunctive disjunctive_mixedQuery
  rw [hrender, tsMatch_query _ hruns]
  decide

/-- "a & b | a": both alternatives share a literal with both runs. -/
theorem repeated_literal_kept :
    ¬ ∃ v, tsMatch v (toTsquery (render (.or (.and (.lexeme "a") (.lexeme "b")) (.lexeme "a")))) ≠
      tsMatch v (.or (.and (.lexeme "a") (.lexeme "b")) (.lexeme "a")) := by
  have hquery : Disjunctive (.or (.and (.lexeme "a") (.lexeme "b")) (.lexeme "a")) :=
    .or (.conjunctive (.and (.lexeme singleWord_a) (.lexeme singleWord_b)))
      (.conjunctive (.lexeme singleWord_a))
  have hshared : ∀ group ∈ alternatives (.or (.and (.lexeme "a") (.lexeme "b")) (.lexeme "a")),
      ∀ run ∈ runs (.or (.and (.lexeme "a") (.lexeme "b")) (.lexeme "a")),
        ∃ literal ∈ group, ∃ literal' ∈ run, literal.lowered = literal'.lowered := by
    decide
  have hkept := (toTsquery_render_iff hquery).mpr fun group hgroup run hrun =>
    .inl (hshared group hgroup run hrun)
  rintro ⟨v, hne⟩
  exact hne (hkept v)

end Ascii

end PostgressRs.Types.QueryPrecedence
