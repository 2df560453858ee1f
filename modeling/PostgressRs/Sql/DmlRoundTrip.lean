import PostgressRs.Sql.SelectRoundTrip

/-!
The statements that change rows, how they are written, and that they are read back.
-/

namespace PostgressRs.Sql.DmlRoundTrip

open PostgressRs.Lib.ReadBack
open PostgressRs.Lib.TokenParser
open PostgressRs.Sql.Ast
open PostgressRs.Sql.ExprParser
open PostgressRs.Sql.ExprPrinter
open PostgressRs.Sql.ExprRegularity
open PostgressRs.Sql.ExprRoundTrip
open PostgressRs.Sql.FromClauseRoundTrip
open PostgressRs.Sql.SelectParser
open PostgressRs.Sql.SelectPrinter
open PostgressRs.Sql.SelectRoundTrip
open PostgressRs.Sql.StatementParser
open PostgressRs.Sql.StatementRegularity
open PostgressRs.Sql.StatementTermination
open PostgressRs.Sql.Tokenizer
open PostgressRs.Sql.TokenStream
open PostgressRs.Sql.TokenText

section Statements

structure PlainSetClause where
  column : Name
  value : PlainExpr

/-- One or more of them. -/
structure Many (α : Type) where
  first : α
  more : List α

abbrev PlainRow : Type := Many PlainExpr

inductive PlainConflict where
  | doNothing (target : Option (Many Name))
  | doUpdate (target : Option (Many Name)) (setClauses : Many PlainSetClause)
      (whereClause : Option PlainExpr)

/-- What stands behind the rows of a select would belong to the select. -/
inductive PlainSource where
  | values (rows : Many PlainRow) (onConflict : Option PlainConflict)
  | select (plain : PlainSelect)

inductive PlainDml where
  | insert (table : DottedName) (columns : Option (Many Name)) (source : PlainSource)
      (returning : Option (Many PlainItem))
  | update (table : DottedName) (fromClause : PlainFrom) (setClauses : Many PlainSetClause)
      (whereClause : Option PlainExpr) (returning : Option (Many PlainItem))
  | delete (table : DottedName) (usingClause : PlainFrom) (whereClause : Option PlainExpr)
      (returning : Option (Many PlainItem))

variable {α β : Type}

def Many.toList (many : Many α) : List α := many.first :: many.more

def Many.map (f : α → β) (many : Many α) : List β := many.toList.map f

def PlainSetClause.toClause (clause : PlainSetClause) : SetClause Expr :=
  ⟨clause.column.val, clause.value.toExpr⟩

def columnNames : Option (Many Name) → Option (List String) :=
  Option.map fun columns => columns.map Subtype.val

/-- The target is only kept where rows are changed. -/
def PlainConflict.toConflict : PlainConflict → OnConflict Expr
  | .doNothing _ => .doNothing
  | .doUpdate target setClauses whereClause =>
      .doUpdate (columnNames target) (whereClause.map PlainExpr.toExpr)
        (setClauses.map PlainSetClause.toClause)

def PlainSource.toSource : PlainSource → InsertSource Expr SelectStatement
  | .values rows _ => .values (rows.map fun row => row.map PlainExpr.toExpr)
  | .select plain => .select plain.toSelect

def PlainSource.toConflict : PlainSource → Option (OnConflict Expr)
  | .values _ onConflict => onConflict.map PlainConflict.toConflict
  | .select _ => none

def returningItems : Option (Many PlainItem) → List (SelectItem Expr)
  | none => []
  | some items => items.map PlainItem.toItem

def dottedName (name : DottedName) : ObjectName := ⟨name.first.val :: name.more.map Subtype.val⟩

def PlainDml.toStatement : PlainDml → Statement
  | .insert table columns source returning =>
      .insert ⟨dottedName table, columnNames columns, source.toSource, source.toConflict,
        returningItems returning⟩
  | .update table fromClause setClauses whereClause returning =>
      .update ⟨dottedName table, fromClause.toClause, setClauses.map PlainSetClause.toClause,
        whereClause.map PlainExpr.toExpr, returningItems returning⟩
  | .delete table usingClause whereClause returning =>
      .delete ⟨dottedName table, usingClause.toClause, whereClause.map PlainExpr.toExpr,
        returningItems returning⟩

end Statements

section Printing

variable {α : Type}

def Many.print (print : α → List Token) (many : Many α) : List Token :=
  printSep .comma print many.first many.more

def printParens (tokens : List Token) : List Token := .lParen :: (tokens ++ [.rParen])

def printNames (names : Many Name) : List Token := names.print fun name => [.ident name.val]

def printColumns : Option (Many Name) → List Token
  | none => []
  | some columns => printParens (printNames columns)

def PlainSetClause.print (clause : PlainSetClause) : List Token :=
  .ident clause.column.val :: .eq :: clause.value.print

def printSet (setClauses : Many PlainSetClause) : List Token :=
  .keyword "SET" :: setClauses.print PlainSetClause.print

def printWhere (whereClause : Option PlainExpr) : List Token :=
  printClause "WHERE" PlainExpr.print whereClause

def PlainConflict.print : PlainConflict → List Token
  | .doNothing target =>
      .keyword "CONFLICT" :: (printColumns target ++ [.keyword "DO", .keyword "NOTHING"])
  | .doUpdate target setClauses whereClause =>
      .keyword "CONFLICT" :: (printColumns target ++ .keyword "DO" :: .keyword "UPDATE" ::
        (printSet setClauses ++ printWhere whereClause))

def printRow (row : PlainRow) : List Token := printParens (row.print PlainExpr.print)

def PlainSource.print : PlainSource → List Token
  | .values rows onConflict =>
      .keyword "VALUES" :: (rows.print printRow ++
        printClause "ON" PlainConflict.print onConflict)
  | .select plain => plain.print

def printReturning (returning : Option (Many PlainItem)) : List Token :=
  printClause "RETURNING" (Many.print PlainItem.print) returning

def printUsing : PlainFrom → List Token
  | .none => []
  | .some table aliasName joins =>
      .keyword "USING" :: (table.print ++ (printAlias aliasName ++ joins.print))

def PlainDml.print : PlainDml → List Token
  | .insert table columns source returning =>
      .keyword "INSERT" :: .keyword "INTO" :: (table.print ++ (printColumns columns ++
        (source.print ++ printReturning returning)))
  | .update table fromClause setClauses whereClause returning =>
      .keyword "UPDATE" :: (table.print ++ (fromClause.print ++ (printSet setClauses ++
        (printWhere whereClause ++ printReturning returning))))
  | .delete table usingClause whereClause returning =>
      .keyword "DELETE" :: .keyword "FROM" :: (table.print ++ (printUsing usingClause ++
        (printWhere whereClause ++ printReturning returning)))

end Printing

section Parts

variable {E F : Token → Prop} {n : Nat}

/-- What may stand behind the parts of a statement. -/
def afterConflict : List Token := [.keyword "RETURNING", .eof]

def afterSource : List Token := .keyword "ON" :: afterConflict

def afterSet : List Token := .keyword "WHERE" :: afterConflict

theorem endTokens_afterSet : ∀ t ∈ afterSet, t ∈ endTokens := by decide

theorem reads_objectName (name : DottedName) :
    Reads (· ≠ .dot) objectName name.print (dottedName name) := by
  intro t rest ht
  have hparts := sepBy_separated (by decide) ht name.first name.more rest
  rw [DottedName.print, List.cons_append, objectName, bind_ok hparts]
  rfl

theorem reads_names (names : Many Name) :
    Reads (· = .rParen) (commaSeparated expectIdent) (printNames names)
      (names.map Subtype.val) := by
  refine reads_sepBy regular_name rfl (decide_eq_true rfl) ?_ fun name _ => reads_ident name
  rintro t rfl
  rfl

theorem reads_columnList (columns : Option (Many Name)) :
    Reads (· ≠ .lParen) columnList (printColumns columns) (columnNames columns) := by
  cases columns with
  | none =>
      exact reads_onToken_neg (leads_nil fun t ht => decide_eq_false ht) (reads_pure none)
  | some columns =>
      have hnames : Reads (· ≠ .lParen)
          (do let columns ← commaSeparated expectIdent; expect .rParen; pure columns)
          (printNames columns ++ [.rParen]) (columns.map Subtype.val) :=
        (reads_names columns).bind (leads_cons (F := (· = Token.rParen)) rfl _)
          (Reads.cons_bind (expect_self .rParen) (reads_pure _))
      exact reads_onToken_pos (decide_eq_true rfl) (hnames.map some)

theorem reads_setClause (clause : PlainSetClause) (hn : clause.print.length < n) :
    Reads (fun t => continueLevel t = none) (setClause (calls n)) clause.print clause.toClause := by
  rw [PlainSetClause.print, List.length_cons, List.length_cons] at hn
  have hvalue := reads_expr clause.value (n := n) (by omega)
  exact Reads.cons_bind (fun _ => rfl)
    (Reads.cons_bind (expect_self .eq) (hvalue.map _))

theorem reads_setClauses (clauses : Many PlainSetClause) (hn : (printSet clauses).length ≤ n) :
    Reads (· ∈ afterSet) (commaSeparated (setClause (calls n)))
      (clauses.print PlainSetClause.print) (clauses.map PlainSetClause.toClause) := by
  have hcomma : ∀ t ∈ afterSet, decide (t = .comma) = false := by decide
  rw [printSet, List.length_cons] at hn
  refine reads_sepBy (regular_setClause (regularCalls n)).atZero rfl (decide_eq_true rfl) hcomma
    fun clause hclause => ?_
  have hle := length_le_printSep Token.comma PlainSetClause.print hclause
  refine (reads_setClause clause (Nat.lt_of_le_of_lt hle hn)).mono ?_
  rintro t (ht | rfl)
  · exact continueLevel_endToken t (endTokens_afterSet t ht)
  · rfl

theorem reads_row (row : PlainRow) (hn : (printRow row).length ≤ n) :
    Reads E (parenthesized (commaSeparated (calls n).expr)) (printRow row)
      (row.map PlainExpr.toExpr) := by
  rw [printRow, printParens, List.length_cons, List.length_append] at hn
  refine reads_parenthesized (reads_exprs row.first row.more (Nat.lt_of_succ_le ?_) ?_)
  · exact Nat.le_trans (Nat.succ_le_succ (Nat.le_add_right _ _)) hn
  · rintro t rfl
    decide

theorem reads_returning (returning : Option (Many PlainItem))
    (hn : (printReturning returning).length ≤ n) :
    Reads (· = .eof) (returningClause (calls n)) (printReturning returning)
      (returningItems returning) := by
  cases returning with
  | none =>
      refine reads_onToken_neg (leads_nil ?_) (reads_pure [])
      rintro t rfl
      rfl
  | some items =>
      refine reads_onToken_pos (keyword_selectWord _ (by decide))
        ((reads_selectList items.first items.more hn).mono ?_)
      rintro t rfl
      decide

theorem leads_returning (returning : Option (Many PlainItem)) :
    Leads (· = .eof) (· ∈ afterConflict) (printReturning returning) := by
  refine leads_clause _ (by decide) ?_ returning
  rintro t rfl
  decide

theorem reads_where (whereClause : Option PlainExpr) (hn : (printWhere whereClause).length ≤ n) :
    Reads (· ∈ afterConflict) (optionally (keyword "WHERE") (calls n).expr)
      (printWhere whereClause) (whereClause.map PlainExpr.toExpr) :=
  reads_exprClause afterConflict "WHERE" (by decide)
    (fun t ht => endTokens_afterSet t (List.mem_cons_of_mem _ ht)) (by decide) whereClause hn

theorem leads_where (whereClause : Option PlainExpr) :
    Leads (· ∈ afterConflict) (· ∈ afterSet) (printWhere whereClause) :=
  leads_clause _ List.mem_cons_self (fun _ => List.mem_cons_of_mem _) whereClause

end Parts

section Inserts

variable {E : Token → Prop} {n : Nat}

theorem reads_conflictTarget {target : Option (Many Name)} (tokens : List Token) {α : Type}
    {f : Option (List String) → SqlParser α} {a : α}
    (hf : Reads E (f (columnNames target)) tokens a) :
    Reads E (do
        expectKeyword "CONFLICT"
        let target ← columnList
        expectKeyword "DO"
        f target) (.keyword "CONFLICT" :: (printColumns target ++ .keyword "DO" :: tokens)) a := by
  have hlead : Leads E (· ≠ Token.lParen) (.keyword "DO" :: tokens) := by
    refine leads_cons ?_ _
    simp
  exact Reads.cons_bind (expectKeyword_selectWord "CONFLICT" (by decide))
    ((reads_columnList target).bind hlead
      (Reads.cons_bind (expectKeyword_selectWord "DO" (by decide)) hf))

theorem reads_conflict (conflict : PlainConflict) (hn : conflict.print.length < n) :
    Reads (· ∈ afterConflict) (onConflict (calls n)) conflict.print conflict.toConflict := by
  cases conflict with
  | doNothing target =>
      exact reads_conflictTarget _
        (reads_onToken_pos (keyword_selectWord "NOTHING" (by decide)) (reads_pure _))
  | doUpdate target setClauses whereClause =>
      simp only [PlainConflict.print, List.length_cons, List.length_append] at hn
      have hother : keyword "NOTHING" (.keyword "UPDATE") = false :=
        keyword_selectWord_ne (by decide) (by decide)
      have hset := reads_setClauses setClauses (n := n) (by omega)
      exact reads_conflictTarget _ (reads_onToken_other hother
        (reads_onToken_pos (keyword_selectWord "UPDATE" (by decide))
          (Reads.cons_bind (expectKeyword_selectWord "SET" (by decide))
            (hset.bind (leads_where whereClause)
              ((reads_where whereClause (by omega)).map _)))))

theorem reads_onConflict (conflict : Option PlainConflict)
    (hn : (printClause "ON" PlainConflict.print conflict).length ≤ n) :
    Reads (· ∈ afterConflict) (optionally (keyword "ON") (onConflict (calls n)))
      (printClause "ON" PlainConflict.print conflict)
      (conflict.map PlainConflict.toConflict) := by
  refine reads_clause (by decide) (keyword_behind "ON" (by decide) (by decide)) ?_
  rintro conflict rfl
  exact reads_conflict conflict hn

theorem reads_values (rows : Many PlainRow) (hn : (rows.print printRow).length ≤ n) :
    Reads (· ∈ afterSource) (insertSource (calls n)) (.keyword "VALUES" :: rows.print printRow)
      (.values (rows.map fun row => row.map PlainExpr.toExpr)) := by
  have hcomma : ∀ t ∈ afterSource, decide (t = .comma) = false := by decide
  have hregular := regular_parenthesized (regular_commaSeparated (regular_expr n)).weaken
  have hrows : Reads (· ∈ afterSource) (commaSeparated (parenthesized (commaSeparated
      (calls n).expr))) (rows.print printRow) (rows.map fun row => row.map PlainExpr.toExpr) := by
    refine reads_sepBy hregular rfl (decide_eq_true rfl) hcomma fun row hrow => ?_
    have hle := length_le_printSep Token.comma printRow hrow
    exact reads_row row (Nat.le_trans hle hn)
  exact reads_onToken_pos (keyword_selectWord "VALUES" (by decide)) (hrows.map _)

theorem reads_selectSource (select : PlainSelect) (hn : select.print.length < n) :
    Reads (· ∈ afterConflict) (insertSource (calls n)) select.print (.select select.toSelect) := by
  have hafter : ∀ t ∈ afterConflict, t ∈ afterSelect := by decide
  have hselect := (selectReads select n hn).map (InsertSource.select (E := Expr))
  obtain ⟨tokens, hprint⟩ := exists_print_select select
  rw [hprint] at hselect ⊢
  have hother : keyword "VALUES" (.keyword "SELECT") = false :=
    keyword_selectWord_ne (by decide) (by decide)
  exact reads_onToken_other hother
    (reads_ifNext_pos (keyword_selectWord "SELECT" (by decide)) (hselect.mono hafter))

/-- The rows, and what happens where they meet others. -/
theorem reads_source (source : PlainSource) (hn : source.print.length < n) {tokens : List Token}
    {α : Type} {f : InsertSource Expr SelectStatement → Option (OnConflict Expr) → SqlParser α}
    {a : α} (hlead : Leads E (· ∈ afterConflict) tokens)
    (hf : Reads E (f source.toSource source.toConflict) tokens a) :
    Reads E (do
        let source ← insertSource (calls n)
        let conflict ← optionally (keyword "ON") (onConflict (calls n))
        f source conflict) (source.print ++ tokens) a := by
  cases source with
  | values rows conflict =>
      rw [PlainSource.print, List.length_cons, List.length_append] at hn
      have hconflict := (reads_onConflict (n := n) conflict (by omega)).bind hlead hf
      have hleadConflict : Leads E (· ∈ afterSource)
          (printClause "ON" PlainConflict.print conflict ++ tokens) :=
        (leads_clause _ List.mem_cons_self (fun _ => List.mem_cons_of_mem _) conflict).append hlead
      have hread := (reads_values rows (n := n) (by omega)).bind
        (f := fun source => optionally (keyword "ON") (onConflict (calls n)) >>= f source)
        hleadConflict hconflict
      rwa [PlainSource.print, List.cons_append, List.append_assoc, ← List.cons_append]
  | select plain =>
      have hnone := reads_onConflict (n := n) none (Nat.zero_le n)
      exact (reads_selectSource plain hn).bind hlead (hnone.bind hlead hf)

end Inserts

section RoundTrip

variable {n : Nat}

theorem exists_print_source (source : PlainSource) :
    ∃ t tokens, source.print = t :: tokens ∧ t ≠ .dot ∧ t ≠ .lParen := by
  cases source with
  | values rows conflict => exact ⟨_, _, rfl, by simp, by simp⟩
  | select plain =>
      obtain ⟨tokens, hprint⟩ := exists_print_select plain
      exact ⟨_, tokens, hprint, by simp, by simp⟩

theorem reads_insert {table : DottedName} {columns : Option (Many Name)} {source : PlainSource}
    {returning : Option (Many PlainItem)}
    (hn : (PlainDml.insert table columns source returning).print.length ≤ n) :
    Reads (· = .eof) (do let insert ← parseInsert (calls n); pure (.insert insert))
      (PlainDml.insert table columns source returning).print
      (PlainDml.insert table columns source returning).toStatement := by
  simp only [PlainDml.print, List.length_cons, List.length_append] at hn
  obtain ⟨t, tokens, hprint, hdot, hparen⟩ := exists_print_source source
  have hleadSource : Leads (· = .eof) (· ≠ Token.lParen)
      (source.print ++ printReturning returning) := by
    rw [hprint]
    exact leads_cons (F := (· ≠ Token.lParen)) hparen _
  have hleadColumns : Leads (· = .eof) (· ≠ Token.dot)
      (printColumns columns ++ (source.print ++ printReturning returning)) := by
    cases columns with
    | none =>
        rw [hprint]
        exact leads_cons (F := (· ≠ Token.dot)) hdot _
    | some columns =>
        refine leads_cons ?_ _
        simp
  have hreturning := reads_returning (n := n) returning (by omega)
  have hsource := reads_source (n := n) source (by omega) (leads_returning returning)
    (f := fun source conflict => do
      let returning ← returningClause (calls n)
      pure (⟨dottedName table, columnNames columns, source, conflict, returning⟩ :
        InsertStatement Expr SelectStatement))
    (hreturning.map _)
  have hinsert : Reads (· = .eof) (parseInsert (calls n))
      (PlainDml.insert table columns source returning).print
      ⟨dottedName table, columnNames columns, source.toSource, source.toConflict,
        returningItems returning⟩ :=
    Reads.cons_bind (expectKeyword_selectWord "INSERT" (by decide))
      (Reads.cons_bind (expectKeyword_selectWord "INTO" (by decide))
        ((reads_objectName table).bind hleadColumns
          ((reads_columnList columns).bind hleadSource hsource)))
  exact hinsert.map _

theorem reads_setWhere (setClauses : Many PlainSetClause) (whereClause : Option PlainExpr)
    (returning : Option (Many PlainItem))
    (hn : (printSet setClauses ++ (printWhere whereClause ++ printReturning returning)).length ≤ n)
    {α : Type} (f : List (SetClause Expr) → Option Expr → List (SelectItem Expr) → α) :
    Reads (· = .eof) (do
        expectKeyword "SET"
        let setClauses ← commaSeparated (setClause (calls n))
        let whereClause ← optionally (keyword "WHERE") (calls n).expr
        let returning ← returningClause (calls n)
        pure (f setClauses whereClause returning))
      (printSet setClauses ++ (printWhere whereClause ++ printReturning returning))
      (f (setClauses.map PlainSetClause.toClause) (whereClause.map PlainExpr.toExpr)
        (returningItems returning)) := by
  rw [List.length_append, List.length_append] at hn
  have hset := reads_setClauses (n := n) setClauses (by omega)
  have hlead := (leads_where whereClause).append (leads_returning returning)
  exact Reads.cons_bind (expectKeyword_selectWord "SET" (by decide))
    (hset.bind hlead ((reads_where whereClause (by omega)).bind (leads_returning returning)
      ((reads_returning returning (by omega)).map _)))

theorem reads_update {table : DottedName} {fromClause : PlainFrom}
    {setClauses : Many PlainSetClause} {whereClause : Option PlainExpr}
    {returning : Option (Many PlainItem)}
    (hn : (PlainDml.update table fromClause setClauses whereClause returning).print.length ≤ n) :
    Reads (· = .eof) (do let update ← parseUpdate (calls n); pure (.update update))
      (PlainDml.update table fromClause setClauses whereClause returning).print
      (PlainDml.update table fromClause setClauses whereClause returning).toStatement := by
  rw [PlainDml.print, List.length_cons, List.length_append, List.length_append] at hn
  have hset := reads_setWhere (n := n) setClauses whereClause returning (by omega)
    (UpdateStatement.mk (dottedName table) fromClause.toClause)
  have hleadSet : Leads (· = .eof) (· ∈ .keyword "SET" :: afterFrom)
      (printSet setClauses ++ (printWhere whereClause ++ printReturning returning)) :=
    leads_cons List.mem_cons_self _
  have hleadFrom : Leads (· = .eof) (· ≠ Token.dot) (fromClause.print ++
      (printSet setClauses ++ (printWhere whereClause ++ printReturning returning))) := by
    cases fromClause with
    | none | some table aliasName joins =>
        refine leads_cons ?_ _
        simp
  have hupdate : Reads (· = .eof) (parseUpdate (calls n))
      (PlainDml.update table fromClause setClauses whereClause returning).print
      ⟨dottedName table, fromClause.toClause, setClauses.map PlainSetClause.toClause,
        whereClause.map PlainExpr.toExpr, returningItems returning⟩ :=
    Reads.cons_bind (expectKeyword_selectWord "UPDATE" (by decide))
      ((reads_objectName table).bind hleadFrom
        ((fromReads fromClause n (by omega)).bind hleadSet hset))
  exact hupdate.map _

theorem reads_using (usingClause : PlainFrom) (hn : (printUsing usingClause).length ≤ n) :
    Reads (· ∈ afterSet) (optionally (keyword "USING") (parseFromClause (calls n)))
      (printUsing usingClause) usingClause.toClause := by
  have hafter : ∀ t ∈ afterSet, t ∈ .keyword "SET" :: afterFrom := by decide
  cases usingClause with
  | none =>
      have hword : ∀ t ∈ afterSet, keyword "USING" t = false :=
        keyword_behind "USING" endTokens_afterSet (by decide)
      exact reads_onToken_neg (leads_nil hword) (reads_pure none)
  | some table aliasName joins =>
      have hclause := reads_fromTables aliasName (tableReads table) (joinsRead joins) hn
      exact reads_onToken_pos (keyword_selectWord _ (by decide))
        ((hclause.map some).mono fun t ht => endsFrom_afterFrom t (hafter t ht))

theorem reads_delete {table : DottedName} {usingClause : PlainFrom}
    {whereClause : Option PlainExpr} {returning : Option (Many PlainItem)}
    (hn : (PlainDml.delete table usingClause whereClause returning).print.length ≤ n) :
    Reads (· = .eof) (do let delete ← parseDelete (calls n); pure (.delete delete))
      (PlainDml.delete table usingClause whereClause returning).print
      (PlainDml.delete table usingClause whereClause returning).toStatement := by
  simp only [PlainDml.print, List.length_cons, List.length_append] at hn
  have hlead := (leads_where whereClause).append (leads_returning returning)
  have hleadUsing : Leads (· = .eof) (· ≠ Token.dot)
      (printUsing usingClause ++ (printWhere whereClause ++ printReturning returning)) := by
    have hdot : ∀ t ∈ afterSet, t ≠ .dot := by decide
    cases usingClause with
    | none => exact hlead.mono hdot
    | some table aliasName joins =>
        refine leads_cons ?_ _
        simp
  have hdelete : Reads (· = .eof) (parseDelete (calls n))
      (PlainDml.delete table usingClause whereClause returning).print
      ⟨dottedName table, usingClause.toClause, whereClause.map PlainExpr.toExpr,
        returningItems returning⟩ :=
    Reads.cons_bind (expectKeyword_selectWord "DELETE" (by decide))
      (Reads.cons_bind (expectKeyword_selectWord "FROM" (by decide))
        ((reads_objectName table).bind hleadUsing
          ((reads_using usingClause (by omega)).bind hlead
            ((reads_where whereClause (by omega)).bind (leads_returning returning)
              ((reads_returning returning (by omega)).map _)))))
  exact hdelete.map _

/-- A statement that changes rows is read as one. -/
theorem reads_dmlStatement (dml : PlainDml) {fuel : Nat} (hfuel : dml.print.length < fuel) :
    Reads (· = .eof) (parseStatement fuel) dml.print dml.toStatement := by
  obtain ⟨fuel, rfl⟩ : ∃ m, fuel = m + 1 := ⟨fuel - 1, by omega⟩
  have hn := Nat.le_of_lt_succ hfuel
  cases dml with
  | insert table columns source returning =>
      have hother (other : String) (hne : "INSERT" ≠ other) :=
        keyword_selectWord_ne (by decide : "INSERT" ∈ selectWords) hne
      exact reads_ifNext_other (hother "SELECT" (by decide))
        (reads_ifNext_other (hother "WITH" (by decide))
          (reads_ifNext_pos (keyword_selectWord "INSERT" (by decide)) (reads_insert hn)))
  | update table fromClause setClauses whereClause returning =>
      have hother (other : String) (hne : "UPDATE" ≠ other) :=
        keyword_selectWord_ne (by decide : "UPDATE" ∈ selectWords) hne
      exact reads_ifNext_other (hother "SELECT" (by decide))
        (reads_ifNext_other (hother "WITH" (by decide))
          (reads_ifNext_other (hother "INSERT" (by decide))
            (reads_ifNext_pos (keyword_selectWord "UPDATE" (by decide)) (reads_update hn))))
  | delete table usingClause whereClause returning =>
      have hother (other : String) (hne : "DELETE" ≠ other) :=
        keyword_selectWord_ne (by decide : "DELETE" ∈ selectWords) hne
      exact reads_ifNext_other (hother "SELECT" (by decide))
        (reads_ifNext_other (hother "WITH" (by decide))
          (reads_ifNext_other (hother "INSERT" (by decide))
            (reads_ifNext_other (hother "UPDATE" (by decide))
              (reads_ifNext_pos (keyword_selectWord "DELETE" (by decide)) (reads_delete hn)))))

/-- A statement that changes rows is read back from every text it is written as. -/
theorem parse_dml (dml : PlainDml) {sql : String} (htext : Writes dml.print sql.toList)
    {fuel : Nat} (hfuel : dml.print.length < fuel) :
    parse fuel sql = .ok dml.toStatement [.eof] :=
  parse_of_reads (reads_dmlStatement dml hfuel) htext

/-- The statement `INSERT INTO t SELECT x FROM t RETURNING x`. -/
def sampleInsert : PlainDml :=
  let t : DottedName := ⟨sampleTable, []⟩
  let x : PlainItem := .expr (.identifier sampleColumn) none
  .insert t none
    (.select (.mk .all x [] (.some (.named t) none .nil) none [] none [] none none [] .nil))
    (some ⟨x, []⟩)

theorem writes_sampleInsert :
    Writes sampleInsert.print "INSERT INTO t SELECT x FROM t RETURNING x ".toList := by
  have hprint : sampleInsert.print =
      [.keyword "INSERT", .keyword "INTO", .ident "t", .keyword "SELECT", .ident "x",
        .keyword "FROM", .ident "t", .keyword "RETURNING", .ident "x"] := rfl
  rw [hprint, wordToken_selectWord "INSERT" (by decide), wordToken_selectWord "INTO" (by decide),
    wordToken_selectWord "SELECT" (by decide), wordToken_selectWord "FROM" (by decide),
    wordToken_selectWord "RETURNING" (by decide), ident_sampleName "t" (by decide),
    ident_sampleName "x" (by decide)]
  have hselect := ((((Writes.done.word "x" rfl).word "RETURNING" rfl).word "t" rfl).word "FROM"
    rfl).word "x" rfl
  exact (((hselect.word "SELECT" rfl).word "t" rfl).word "INTO" rfl).word "INSERT" rfl

theorem parse_dml_sample :
    parse 20 "INSERT INTO t SELECT x FROM t RETURNING x " = .ok sampleInsert.toStatement [.eof] :=
  parse_dml sampleInsert writes_sampleInsert (by decide)

end RoundTrip

end PostgressRs.Sql.DmlRoundTrip
