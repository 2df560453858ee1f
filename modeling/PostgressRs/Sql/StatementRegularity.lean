import Mathlib.Data.List.Basic
import PostgressRs.Lib.TokenParser
import PostgressRs.Sql.Ast
import PostgressRs.Sql.ExprParser
import PostgressRs.Sql.ExprRegularity
import PostgressRs.Sql.SelectParser
import PostgressRs.Sql.StatementParser
import PostgressRs.Sql.Tokenizer
import PostgressRs.Sql.TokenStream

/-!
The parsers of selects and statements are regular if the calls inside of them are.
-/

namespace PostgressRs.Sql.StatementRegularity

open PostgressRs.Lib.TokenParser
open PostgressRs.Sql.Ast
open PostgressRs.Sql.ExprParser
open PostgressRs.Sql.ExprRegularity
open PostgressRs.Sql.SelectParser
open PostgressRs.Sql.StatementParser
open PostgressRs.Sql.Tokenizer
open PostgressRs.Sql.TokenStream

variable {n : Nat} {r r' : Calls}

section Tables

theorem regular_tableAlias : Regular .eof n 0 tableAlias tableAlias :=
  Regular.onToken rfl (regular_expectIdent.bind fun _ => regular_pure _)
    (Regular.onSome rfl (fun _ => regular_pure _) (regular_pure _))

theorem regular_parseJoinType (word : String) :
    Regular .eof n 0 (parseJoinType word) (parseJoinType word) := by
  rw [parseJoinType]
  split
  · exact regular_pure _
  refine Regular.bind (m := 0) ?_ fun _ => ?_
  · rw [outerWord]
    split
    · exact regular_flag rfl
    · exact regular_pure _
  · exact (regular_expectKeyword _).bind fun _ => regular_pure _

theorem regular_parseTableRef (hr : RegularCalls n r r') :
    Regular .eof n 1 (parseTableRef r) (parseTableRef r') := by
  refine Regular.onToken rfl ?_ (regular_objectName.bind fun _ => regular_pure _)
  refine (Regular.ifNext rfl ?_ ?_).weaken
  · exact hr.select.bind fun _ => (regular_expect (by decide)).bind fun _ => regular_pure _
  · exact regular_expectIdent.bind fun _ =>
      (regular_expect (by decide)).bind fun _ => regular_pure _

theorem regular_joinConstraint (hr : RegularCalls n r r') :
    Regular .eof n 0 (joinConstraint r) (joinConstraint r') := by
  refine Regular.onToken rfl (hr.expr.bind fun _ => regular_pure _) ?_
  refine Regular.onToken rfl ?_ (regular_pure _)
  exact (regular_parenthesized (regular_commaSeparated regular_expectIdent).weaken).bind
    fun _ => regular_pure _

theorem regular_parseJoin (hr : RegularCalls n r r') (word : String) :
    Regular .eof n 0 (parseJoin r word) (parseJoin r' word) :=
  (regular_parseJoinType word).bind fun _ => (regular_parseTableRef hr).bind fun _ =>
    regular_tableAlias.bind fun _ => (regular_joinConstraint hr).bind fun _ => regular_pure _

theorem regular_parseFromClause (hr : RegularCalls n r r') :
    Regular .eof n 1 (parseFromClause r) (parseFromClause r') := by
  refine (regular_parseTableRef hr).bind fun _ => ?_
  refine regular_tableAlias.bind fun _ => regular_iterate (fun _ => ?_) _
  exact Advances.onSome rfl (fun word => (regular_parseJoin hr word).bind fun _ => regular_pure _)
    (advances_done _)

end Tables

section Selects

theorem regular_lockingClause : Regular .eof n 1 lockingClause lockingClause := by
  refine Regular.onToken rfl (regular_pure _) ?_
  refine Regular.onToken rfl ?_ (Regular.onToken rfl (regular_pure _) ?_)
  · exact (regular_expectKeyword _).bind fun _ =>
      (regular_expectKeyword _).bind fun _ => regular_pure _
  · exact (regular_expectKeyword _).bind fun _ =>
      (regular_expectKeyword _).bind fun _ => regular_pure _

theorem regular_lockingClauses : Regular .eof n 0 lockingClauses lockingClauses :=
  regular_iterate (fun _ => Advances.onToken rfl
    (regular_lockingClause.bind fun _ => regular_pure _) (advances_done _)) []

theorem regular_distinctClause (hr : RegularCalls n r r') :
    Regular .eof n 0 (distinctClause r) (distinctClause r') := by
  refine Regular.onToken rfl (Regular.onToken rfl ?_ (regular_pure _)) (regular_pure _)
  exact (regular_parenthesized (regular_commaSeparated hr.expr).weaken).bind
    fun _ => regular_pure _

theorem regular_selectItem (hr : RegularCalls n r r') :
    Regular .eof n 1 (selectItem r) (selectItem r') := by
  refine Regular.onToken rfl ?_ (hr.expr.bind fun _ => ?_)
  · exact Regular.onToken rfl (regular_expectIdent.bind fun _ => regular_pure _) (regular_pure _)
  · exact Regular.onToken rfl (regular_expectIdent.bind fun _ => regular_pure _)
      (Regular.onSome rfl (fun _ => regular_pure _) (regular_pure _))

theorem regular_parseSelectList (hr : RegularCalls n r r') :
    Regular .eof n 1 (parseSelectList r) (parseSelectList r') :=
  regular_commaSeparated (regular_selectItem hr)

theorem regular_parseSelectBody (hr : RegularCalls n r r') :
    Regular .eof n 1 (parseSelectBody r) (parseSelectBody r') := by
  refine Regular.onToken rfl ?_ hr.select
  exact hr.select.bind fun _ => (regular_expect (by decide)).bind fun _ => regular_pure _

theorem regular_setOperations (hr : RegularCalls n r r') :
    Regular .eof n 0 (setOperations r) (setOperations r') := by
  refine regular_iterate (fun _ => Advances.onSome rfl (fun _ => ?_) (advances_done _)) []
  exact (regular_flag rfl).bind fun _ => (regular_parseSelectBody hr).bind fun _ => regular_pure _

theorem regular_limitClause (hr : RegularCalls n r r') :
    Regular .eof n 1 (limitClause r) (limitClause r') :=
  Regular.onToken rfl (regular_pure _) (hr.expr.bind fun _ => regular_pure _)

theorem regular_parseSelect (hr : RegularCalls n r r') :
    Regular .eof (n + 1) 1 (parseSelect r) (parseSelect r') := by
  refine (regular_expectKeyword _).bindSucc fun _ => ?_
  refine (regular_distinctClause hr).bind fun _ => ?_
  refine (regular_parseSelectList hr).bind fun _ => ?_
  refine (regular_optionally rfl (regular_parseFromClause hr).weaken).bind fun _ => ?_
  refine (regular_optionally rfl hr.expr.weaken).bind fun _ => ?_
  refine (regular_listBy _ hr.expr).bind fun _ => ?_
  refine (regular_optionally rfl hr.expr.weaken).bind fun _ => ?_
  refine (regular_listBy _ (regular_orderByItem hr)).bind fun _ => ?_
  refine (regular_optionally rfl (regular_limitClause hr).weaken).bind fun _ => ?_
  refine (regular_optionally rfl hr.expr.weaken).bind fun _ => ?_
  refine regular_lockingClauses.bind fun _ => ?_
  exact (regular_setOperations hr).bind fun _ => regular_pure _

/-- Calls finish on inputs shorter than their fuel, and with less fuel they do the same or
do not finish. -/
theorem regular_calls {fuel fuel' : Nat} (h : fuel' ≤ fuel) :
    RegularCalls fuel (calls fuel) (calls fuel') := by
  induction fuel generalizing fuel' with
  | zero =>
      obtain rfl := Nat.le_zero.mp h
      exact ⟨regular_unfinished, regular_unfinished, regular_unfinished, regular_unfinished⟩
  | succ fuel ih =>
      cases fuel' with
      | zero =>
          have hr := ih (Nat.le_refl fuel)
          exact ⟨(regular_parseExpr hr).starved, (regular_parseBitwiseOr hr).starved,
            (regular_parseSelect hr).starved, (regular_parseDataType hr).starved⟩
      | succ fuel' =>
          have hr := ih (Nat.le_of_succ_le_succ h)
          exact ⟨regular_parseExpr hr, regular_parseBitwiseOr hr, regular_parseSelect hr,
            regular_parseDataType hr⟩

end Selects

section Dml

theorem regular_setClause (hr : RegularCalls n r r') :
    Regular .eof n 1 (setClause r) (setClause r') :=
  regular_expectIdent.bind fun _ => (regular_expect (by decide)).bind fun _ =>
    hr.expr.bind fun _ => regular_pure _

theorem regular_returningClause (hr : RegularCalls n r r') :
    Regular .eof n 0 (returningClause r) (returningClause r') :=
  Regular.onToken rfl (regular_parseSelectList hr).weaken (regular_pure _)

theorem regular_insertSource (hr : RegularCalls n r r') :
    Regular .eof n 1 (insertSource r) (insertSource r') := by
  refine Regular.onToken rfl ?_ ?_
  · exact (regular_commaSeparated (regular_parenthesized
      (regular_commaSeparated hr.expr).weaken)).bind fun _ => regular_pure _
  · exact Regular.ifNext rfl (hr.select.bind fun _ => regular_pure _) (regular_failWith _)

theorem regular_onConflict (hr : RegularCalls n r r') :
    Regular .eof n 1 (onConflict r) (onConflict r') := by
  refine (regular_expectKeyword _).bind fun _ => ?_
  refine regular_columnList.bind fun _ => ?_
  refine (regular_expectKeyword _).bind fun _ => ?_
  refine Regular.onToken rfl (regular_pure _) (Regular.onToken rfl ?_ (regular_failWith _))
  refine (regular_expectKeyword _).bind fun _ => ?_
  refine (regular_commaSeparated (regular_setClause hr)).bind fun _ => ?_
  exact (regular_optionally rfl hr.expr.weaken).bind fun _ => regular_pure _

theorem regular_parseInsert (hr : RegularCalls n r r') :
    Regular .eof (n + 1) 1 (parseInsert r) (parseInsert r') := by
  refine (regular_expectKeyword _).bindSucc fun _ => ?_
  refine (regular_expectKeyword _).bind fun _ => ?_
  refine regular_objectName.bind fun _ => ?_
  refine regular_columnList.bind fun _ => ?_
  refine (regular_insertSource hr).bind fun _ => ?_
  refine (regular_optionally rfl (regular_onConflict hr).weaken).bind fun _ => ?_
  exact (regular_returningClause hr).bind fun _ => regular_pure _

theorem regular_parseUpdate (hr : RegularCalls n r r') :
    Regular .eof (n + 1) 1 (parseUpdate r) (parseUpdate r') := by
  refine (regular_expectKeyword _).bindSucc fun _ => ?_
  refine regular_objectName.bind fun _ => ?_
  refine (regular_optionally rfl (regular_parseFromClause hr).weaken).bind fun _ => ?_
  refine (regular_expectKeyword _).bind fun _ => ?_
  refine (regular_commaSeparated (regular_setClause hr)).bind fun _ => ?_
  refine (regular_optionally rfl hr.expr.weaken).bind fun _ => ?_
  exact (regular_returningClause hr).bind fun _ => regular_pure _

theorem regular_parseDelete (hr : RegularCalls n r r') :
    Regular .eof (n + 1) 1 (parseDelete r) (parseDelete r') := by
  refine (regular_expectKeyword _).bindSucc fun _ => ?_
  refine (regular_expectKeyword _).bind fun _ => ?_
  refine regular_objectName.bind fun _ => ?_
  refine (regular_optionally rfl (regular_parseFromClause hr).weaken).bind fun _ => ?_
  refine (regular_optionally rfl hr.expr.weaken).bind fun _ => ?_
  exact (regular_returningClause hr).bind fun _ => regular_pure _

end Dml

section Constraints

theorem regular_ifNotExists : Regular .eof n 0 ifNotExists ifNotExists := by
  refine Regular.onToken rfl ?_ (regular_pure _)
  exact (regular_expectKeyword _).bind fun _ =>
    (regular_expectKeyword _).bind fun _ => regular_pure _

theorem regular_ifExists : Regular .eof n 0 ifExists ifExists :=
  Regular.onToken rfl ((regular_expectKeyword _).bind fun _ => regular_pure _) (regular_pure _)

theorem regular_names : Regular .eof n 1 names names :=
  regular_parenthesized (regular_commaSeparated regular_expectIdent).weaken

theorem regular_columnReference : Regular .eof n 1 columnReference columnReference :=
  regular_objectName.bind fun _ => (regular_parenthesized regular_expectIdent.weaken).bind
    fun _ => regular_pure _

theorem regular_columnConstraints (hr : RegularCalls n r r') :
    Regular .eof n 0 (columnConstraints r) (columnConstraints r') := by
  refine regular_iterate (fun _ => ?_) []
  refine Advances.onToken rfl ((regular_expectKeyword _).bind fun _ => regular_pure _) ?_
  refine Advances.onToken rfl (regular_pure _) ?_
  refine Advances.onToken rfl ((regular_expectKeyword _).bind fun _ => regular_pure _) ?_
  refine Advances.onToken rfl (regular_pure _) ?_
  refine Advances.onToken rfl (hr.expr.bind fun _ => regular_pure _) ?_
  refine Advances.onToken rfl (regular_columnReference.bind fun _ => regular_pure _) ?_
  refine Advances.onToken rfl ?_ (advances_endAt rfl)
  exact (regular_parenthesized hr.expr.weaken).bind fun _ => regular_pure _

theorem regular_parseColumnDef (hr : RegularCalls n r r') :
    Regular .eof n 1 (parseColumnDef r) (parseColumnDef r') :=
  regular_expectIdent.bind fun _ => hr.dataType.bind fun _ =>
    (regular_columnConstraints hr).bind fun _ => regular_pure _

theorem regular_foreignKey : Regular .eof n 1 foreignKey foreignKey := by
  refine (regular_expectKeyword _).bind fun _ => ?_
  refine regular_names.bind fun _ => ?_
  refine (regular_expectKeyword _).bind fun _ => ?_
  refine regular_objectName.bind fun _ => ?_
  exact regular_names.bind fun _ => regular_pure _

theorem regular_tableKey {otherwise otherwise' : SqlParser (TableConstraint Expr)}
    (h : Regular .eof n 1 otherwise otherwise') :
    Regular .eof n 1 (tableKey otherwise) (tableKey otherwise') := by
  refine Regular.onToken rfl ?_ (Regular.onToken rfl (regular_names.bind fun _ => regular_pure _) h)
  exact (regular_expectKeyword _).bind fun _ => regular_names.bind fun _ => regular_pure _

theorem regular_parseTableConstraint (hr : RegularCalls n r r') :
    Regular .eof n 1 (parseTableConstraint r) (parseTableConstraint r') := by
  refine regular_tableKey (Regular.onToken rfl ?_ ?_)
  · exact (regular_parenthesized hr.expr.weaken).bind fun _ => regular_pure _
  · exact Regular.onToken rfl regular_foreignKey.weaken (regular_failWith _)

end Constraints

section Create

theorem regular_tableElement (hr : RegularCalls n r r') (columns : List (ColumnDef Expr))
    (constraints : List (TableConstraint Expr)) :
    Regular .eof n 1 (tableElement r columns constraints)
      (tableElement r' columns constraints) := by
  refine Regular.onToken rfl ?_ ?_
  · exact (regular_expectKeyword _).bind fun _ => regular_names.bind fun _ => regular_pure _
  refine Regular.onToken rfl (regular_names.bind fun _ => regular_pure _) ?_
  refine Regular.onToken rfl ?_ ((regular_parseColumnDef hr).bind fun _ => regular_pure _)
  exact regular_expectIdent.bind fun _ =>
    (regular_parseTableConstraint hr).bind fun _ => regular_pure _

theorem regular_tableElements (hr : RegularCalls n r r') :
    Regular .eof n 0 (tableElements r) (tableElements r') := by
  refine regular_iterate (fun elements => Advances.onToken rfl (regular_pure _) ?_) ([], [])
  refine Regular.advances ?_
  exact (regular_tableElement hr _ _).bind fun _ => (regular_flag rfl).bind fun _ => regular_pure _

theorem regular_parseCreateTable (hr : RegularCalls n r r') :
    Regular .eof n 0 (parseCreateTable r) (parseCreateTable r') := by
  refine regular_ifNotExists.bind fun _ => ?_
  refine regular_objectName.bind fun _ => ?_
  refine (regular_expect (by decide)).bind fun _ => ?_
  exact (regular_tableElements hr).bind fun _ => regular_pure _

theorem regular_indexColumn (hr : RegularCalls n r r') :
    Regular .eof n 1 (indexColumn r) (indexColumn r') :=
  hr.expr.bind fun _ => regular_sortDirection.bind fun _ =>
    regular_nullsOrder.bind fun _ => regular_pure _

theorem regular_parseCreateIndex (hr : RegularCalls n r r') :
    Regular .eof n 0 (parseCreateIndex r) (parseCreateIndex r') := by
  refine regular_ifNotExists.bind fun _ => ?_
  refine regular_objectName.bind fun _ => ?_
  refine (regular_expectKeyword _).bind fun _ => ?_
  refine regular_objectName.bind fun _ => ?_
  exact (regular_parenthesized (regular_commaSeparated (regular_indexColumn hr)).weaken).bind
    fun _ => regular_pure _

theorem regular_parseCreateView (hr : RegularCalls n r r') :
    Regular .eof n 0 (parseCreateView r) (parseCreateView r') := by
  refine regular_objectName.bind fun _ => ?_
  refine regular_columnList.bind fun _ => ?_
  refine (regular_expectKeyword _).bind fun _ => ?_
  exact hr.select.bind fun _ => regular_pure _

theorem regular_numberOr (default : Int) :
    Regular .eof n 0 (numberOr default) (numberOr default) :=
  Regular.onSome rfl (fun _ => regular_pure _) (regular_pure _)

theorem regular_signedNumber : Regular .eof n 0 signedNumber signedNumber :=
  (regular_flag rfl).bind fun _ => (regular_numberOr 1).bind fun _ => regular_pure _

theorem regular_sequenceNo (sequence : CreateSequenceStatement) :
    Regular .eof n 0 (sequenceNo sequence) (sequenceNo sequence) := by
  refine Regular.onToken rfl (regular_pure _) ?_
  refine Regular.onToken rfl (regular_pure _) ?_
  refine Regular.onToken rfl (regular_pure _) ?_
  exact Regular.onToken rfl (regular_pure _) (regular_pure _)

theorem regular_sequenceOptions (hr : RegularCalls n r r') (sequence : CreateSequenceStatement) :
    Regular .eof n 0 (sequenceOptions r sequence) (sequenceOptions r' sequence) := by
  refine regular_iterate (fun sequence => ?_) sequence
  refine Advances.onToken rfl (hr.dataType.bind fun _ => regular_pure _) ?_
  refine Advances.onToken rfl ((regular_expectKeyword _).bind fun _ =>
    regular_signedNumber.bind fun _ => regular_pure _) ?_
  refine Advances.onToken rfl ((regular_numberOr _).bind fun _ => regular_pure _) ?_
  refine Advances.onToken rfl ((regular_numberOr _).bind fun _ => regular_pure _) ?_
  refine Advances.onToken rfl ((regular_flag rfl).bind fun _ =>
    (regular_numberOr _).bind fun _ => regular_pure _) ?_
  refine Advances.onToken rfl ((regular_numberOr _).bind fun _ => regular_pure _) ?_
  refine Advances.onToken rfl (regular_pure _) ?_
  refine Advances.onToken rfl ((regular_sequenceNo _).bind fun _ => regular_pure _) ?_
  refine Advances.onToken rfl ?_ (advances_done _)
  exact (regular_expectKeyword _).bind fun _ => regular_objectName.bind fun _ => regular_pure _

theorem regular_parseCreateSequence (hr : RegularCalls n r r') :
    Regular .eof n 0 (parseCreateSequence r) (parseCreateSequence r') :=
  regular_ifNotExists.bind fun _ => regular_objectName.bind fun _ =>
    (regular_sequenceOptions hr _).bind fun _ => regular_pure _

theorem regular_subtype (hr : RegularCalls n r r') :
    Regular .eof n 1 (subtype r) (subtype r') :=
  Regular.onToken rfl ((regular_expect (by decide)).bind fun _ => hr.dataType.weaken)
    (regular_failWith _)

theorem regular_compositeAttribute (hr : RegularCalls n r r') :
    Regular .eof n 1 (compositeAttribute r) (compositeAttribute r') :=
  regular_expectIdent.bind fun _ => hr.dataType.bind fun _ =>
    (regular_optionally rfl regular_objectName.weaken).bind fun _ => regular_pure _

theorem regular_typeDefinition (hr : RegularCalls n r r') :
    Regular .eof n 1 (typeDefinition r) (typeDefinition r') := by
  refine Regular.onToken rfl ?_
    (Regular.onToken rfl ?_ (Regular.onToken rfl ?_ (regular_failWith _)))
  · exact (regular_parenthesized (regular_commaSeparated regular_expectString).weaken).bind
      fun _ => regular_pure _
  · refine Regular.onToken rfl ?_ ((regular_subtype hr).bind fun _ => regular_pure _)
    exact (regular_subtype hr).bind fun _ =>
      (regular_expect (by decide)).bind fun _ => regular_pure _
  · exact (regular_commaSeparated (regular_compositeAttribute hr)).bind fun _ =>
      (regular_expect (by decide)).bind fun _ => regular_pure _

theorem regular_parseCreateType (hr : RegularCalls n r r') :
    Regular .eof n 0 (parseCreateType r) (parseCreateType r') :=
  regular_objectName.bind fun _ => (regular_expectKeyword _).bind fun _ =>
    (regular_typeDefinition hr).bind fun _ => regular_pure _

theorem regular_parseCreateSchema : Regular .eof n 0 parseCreateSchema parseCreateSchema := by
  refine regular_ifNotExists.bind fun _ => ?_
  refine Regular.onToken rfl (regular_expectIdent.bind fun _ => regular_pure _) ?_
  refine Regular.onSome rfl (fun _ => ?_) (regular_pure _)
  exact (regular_optionally rfl regular_expectIdent.weaken).bind fun _ => regular_pure _

theorem regular_parseCreate (hr : RegularCalls n r r') :
    Regular .eof (n + 1) 1 (parseCreate r) (parseCreate r') := by
  refine (regular_expectKeyword _).bindSucc fun _ => ?_
  refine Regular.onToken rfl (regular_parseCreateTable hr) ?_
  refine Regular.onToken rfl (regular_parseCreateIndex hr) ?_
  refine Regular.onToken rfl ((regular_parseCreateView hr).bind fun _ => regular_pure _) ?_
  refine Regular.onToken rfl ((regular_expectKeyword _).bind fun _ =>
    (regular_parseCreateView hr).bind fun _ => regular_pure _) ?_
  refine Regular.onToken rfl (regular_parseCreateSequence hr) ?_
  refine Regular.onToken rfl (regular_parseCreateType hr) ?_
  exact Regular.onToken rfl regular_parseCreateSchema (regular_failWith _)

end Create

section Alter

theorem regular_alterColumnAction (hr : RegularCalls n r r') :
    Regular .eof n 1 (alterColumnAction r) (alterColumnAction r') := by
  refine Regular.onToken rfl ?_ (Regular.onToken rfl ?_ (regular_failWith _))
  · refine Regular.onToken rfl (hr.expr.bind fun _ => regular_pure _) ?_
    refine Regular.onToken rfl ((regular_expectKeyword _).bind fun _ => regular_pure _) ?_
    refine (regular_expectKeyword _).bind fun _ => ?_
    exact (regular_expectKeyword _).bind fun _ => hr.dataType.bind fun _ => regular_pure _
  · refine Regular.onToken rfl (regular_pure _) (Regular.onToken rfl ?_ (regular_failWith _))
    exact (regular_expectKeyword _).bind fun _ => regular_pure _

theorem regular_addColumn (hr : RegularCalls n r r') :
    Regular .eof n 0 (addColumn r) (addColumn r') :=
  (regular_flag rfl).bind fun _ => (regular_parseColumnDef hr).bind fun _ => regular_pure _

theorem regular_dropColumn : Regular .eof n 0 dropColumn dropColumn :=
  (regular_flag rfl).bind fun _ => regular_expectIdent.bind fun _ => regular_ifExists.bind fun _ =>
    (regular_flag rfl).bind fun _ => regular_pure _

theorem regular_rename : Regular .eof n 1 rename rename := by
  refine Regular.onToken rfl ?_ ?_
  · exact regular_expectIdent.bind fun _ => (regular_expectKeyword _).bind fun _ =>
      regular_expectIdent.bind fun _ => regular_pure _
  · exact (regular_expectKeyword _).bind fun _ => regular_objectName.bind fun _ => regular_pure _

theorem regular_alterColumn (hr : RegularCalls n r r') :
    Regular .eof n 0 (alterColumn r) (alterColumn r') :=
  (regular_flag rfl).bind fun _ => regular_expectIdent.bind fun _ =>
    (regular_alterColumnAction hr).bind fun _ => regular_pure _

theorem regular_parseAlter (hr : RegularCalls n r r') :
    Regular .eof (n + 1) 1 (parseAlter r) (parseAlter r') := by
  refine (regular_expectKeyword _).bindSucc fun _ => ?_
  refine (regular_expectKeyword _).bind fun _ => ?_
  refine regular_objectName.bind fun _ => ?_
  refine Regular.bind (m := 1) ?_ fun _ => regular_pure _
  refine Regular.onToken rfl (regular_addColumn hr) ?_
  refine Regular.onToken rfl regular_dropColumn ?_
  refine Regular.onToken rfl regular_rename.weaken ?_
  exact Regular.onToken rfl (regular_alterColumn hr) (regular_failWith _)

theorem regular_dropped : Regular .eof n 0 dropped dropped :=
  regular_ifExists.bind fun _ => regular_objectName.bind fun _ =>
    (regular_flag rfl).bind fun _ => regular_pure _

theorem regular_parseDrop : Regular .eof n 1 parseDrop parseDrop := by
  refine (regular_expectKeyword _).bind fun _ => ?_
  refine Regular.onToken rfl (regular_dropped.bind fun _ => regular_pure _) ?_
  exact Regular.onToken rfl (regular_dropped.bind fun _ => regular_pure _) (regular_failWith _)

end Alter

section Merge

theorem regular_mergeSource (hr : RegularCalls n r r') :
    Regular .eof n 1 (mergeSource r) (mergeSource r') := by
  refine Regular.onToken rfl ?_ (regular_objectName.bind fun _ => regular_pure _)
  exact hr.select.bind fun _ => (regular_expect (by decide)).bind fun _ => regular_pure _

theorem regular_mergeSourceAlias : Regular .eof n 0 mergeSourceAlias mergeSourceAlias :=
  Regular.onToken rfl (regular_next.bind fun _ => regular_pure _)
    (Regular.onSome rfl (fun _ => regular_pure _) (regular_pure _))

theorem regular_mergeSetClause (hr : RegularCalls n r r') :
    Regular .eof n 1 (mergeSetClause r) (mergeSetClause r') :=
  (regular_sepBy rfl regular_expectIdent).bind fun _ => (regular_expect (by decide)).bind fun _ =>
    hr.expr.bind fun _ => regular_pure _

theorem regular_parseMergeAction (hr : RegularCalls n r r') :
    Regular .eof n 1 (parseMergeAction r) (parseMergeAction r') := by
  refine Regular.onToken rfl ?_ (Regular.onToken rfl (regular_pure _) (Regular.onToken rfl ?_ ?_))
  · exact (regular_expectKeyword _).bind fun _ =>
      (regular_commaSeparated (regular_mergeSetClause hr)).bind fun _ => regular_pure _
  · refine regular_columnList.bind fun _ => (regular_expectKeyword _).bind fun _ => ?_
    exact (regular_parenthesized (regular_commaSeparated
      (regular_commaSeparated hr.expr)).weaken).bind fun _ => regular_pure _
  · exact Regular.onToken rfl ((regular_expectKeyword _).bind fun _ => regular_pure _)
      (regular_failWith _)

theorem regular_mergeClause (hr : RegularCalls n r r') :
    Regular .eof n 0 (mergeClause r) (mergeClause r') := by
  refine (regular_flag rfl).bind fun _ => (regular_expectKeyword _).bind fun _ => ?_
  refine (regular_optionally rfl hr.expr.weaken).bind fun _ => ?_
  refine (regular_expectKeyword _).bind fun _ => ?_
  exact (regular_parseMergeAction hr).bind fun _ => regular_pure _

theorem regular_mergeClauses (hr : RegularCalls n r r') :
    Regular .eof n 0 (mergeClauses r) (mergeClauses r') :=
  regular_iterate (fun _ => Advances.onToken rfl
    ((regular_mergeClause hr).bind fun _ => regular_pure _) (advances_done _)) []

theorem regular_parseMerge (hr : RegularCalls n r r') :
    Regular .eof (n + 1) 1 (parseMerge r) (parseMerge r') := by
  refine (regular_expectKeyword _).bindSucc fun _ => ?_
  refine (regular_expectKeyword _).bind fun _ => ?_
  refine regular_objectName.bind fun _ => ?_
  refine regular_tableAlias.bind fun _ => ?_
  refine (regular_expectKeyword _).bind fun _ => ?_
  refine (regular_mergeSource hr).bind fun _ => ?_
  refine regular_mergeSourceAlias.bind fun _ => ?_
  refine (regular_expectKeyword _).bind fun _ => ?_
  refine hr.expr.bind fun _ => ?_
  exact (regular_mergeClauses hr).bind fun _ => regular_pure _

end Merge

section Transactions

theorem regular_isolationLevel : Regular .eof n 1 isolationLevel isolationLevel := by
  refine Regular.onToken rfl (regular_pure _) ?_
  refine Regular.onToken rfl ((regular_expectKeyword _).bind fun _ => regular_pure _) ?_
  refine Regular.onToken rfl ?_ (regular_failWith _)
  exact Regular.onToken rfl (regular_pure _)
    (Regular.onToken rfl (regular_pure _) (regular_failWith _))

theorem regular_beginOptions (start : BeginStatement) :
    Regular .eof n 0 (beginOptions start) (beginOptions start) := by
  refine regular_iterate (fun _ => ?_) start
  refine Advances.onToken rfl ((regular_expectKeyword _).bind fun _ =>
    regular_isolationLevel.bind fun _ => regular_pure _) ?_
  refine Advances.onToken rfl ((regular_expectKeyword _).bind fun _ => regular_pure _) ?_
  refine Advances.onToken rfl (regular_pure _) (Advances.onToken rfl (regular_pure _) ?_)
  exact Advances.onToken rfl ((regular_expectKeyword _).bind fun _ => regular_pure _)
    (advances_done _)

theorem regular_parseBegin : Regular .eof n 1 parseBegin parseBegin := by
  refine Regular.bind (m := 1) ?_ fun _ => regular_beginOptions _
  exact Regular.onToken rfl (regular_pure _)
    (Regular.onToken rfl (regular_expectKeyword _).weaken (regular_failWith _))

theorem regular_setValues : Regular .eof n 0 setValues setValues := by
  refine regular_iterate (fun _ => Advances.onSome rfl (fun _ => ?_) (advances_done _)) []
  exact Regular.onToken rfl (regular_pure _) (regular_pure _)

theorem regular_parseSet : Regular .eof n 1 parseSet parseSet := by
  refine (regular_expectKeyword _).bind fun _ => ?_
  refine Regular.bind (m := 0) ?_ fun _ => ?_
  · refine Regular.onTokens (regular_pure _) regular_expectIdent.weaken (Nat.zero_le _) ?_
    simp [keyword]
  · exact (regular_flag rfl).bind fun _ => regular_setValues.bind fun _ => regular_pure _

end Transactions

section Statements

variable {statement statement' : SqlParser Statement}

theorem regular_cteHead : Regular .eof n 1 cteHead cteHead := by
  refine regular_expectIdent.bind fun _ => ?_
  refine regular_columnList.bind fun _ => ?_
  refine (regular_expectKeyword _).bind fun _ => ?_
  refine Regular.bind (m := 0) ?_ fun _ => ?_
  · refine Regular.onToken rfl (regular_pure _) ?_
    refine Regular.onTokens (regular_pure _) (regular_pure _) (Nat.zero_le _) ?_
    simp [keyword]
  · exact (regular_flag rfl).bind fun _ => regular_pure _

theorem regular_closing (opened : Bool) : Regular .eof n 0 (closing opened) (closing opened) := by
  rw [closing]
  split
  · exact (regular_expect (by decide)).weaken
  · exact regular_pure _

theorem regular_parseCte (hs : Regular .eof n 1 statement statement') :
    Regular .eof n 1 (parseCte statement) (parseCte statement') :=
  regular_cteHead.bind fun head => hs.bind fun _ =>
    (regular_closing head.opened).bind fun _ => regular_pure _

theorem regular_parseWithSelect (hr : RegularCalls n r r')
    (hs : Regular .eof n 1 statement statement') :
    Regular .eof n 1 (parseWithSelect r statement) (parseWithSelect r' statement') := by
  refine (regular_expectKeyword _).bind fun _ => (regular_flag rfl).bind fun _ => ?_
  refine (regular_commaSeparated (regular_parseCte hs)).bind fun _ => ?_
  exact hr.select.bind fun _ => regular_pure _

/-- A statement may be parsed again from the same token, so no number of tokens is
promised to be enough. -/
theorem regular_parseStatementWith (hr : RegularCalls 0 r r')
    (hs : Regular .eof 0 1 statement statement') :
    Regular .eof 0 1 (parseStatementWith r statement) (parseStatementWith r' statement') := by
  refine Regular.ifNext rfl ((regular_parseSelect hr).bind fun _ => regular_pure _).atZero ?_
  refine Regular.ifNext rfl (regular_parseWithSelect hr hs) ?_
  refine Regular.ifNext rfl ((regular_parseInsert hr).bind fun _ => regular_pure _).atZero ?_
  refine Regular.ifNext rfl ((regular_parseUpdate hr).bind fun _ => regular_pure _).atZero ?_
  refine Regular.ifNext rfl ((regular_parseDelete hr).bind fun _ => regular_pure _).atZero ?_
  refine Regular.ifNext rfl regular_parseSet ?_
  refine Regular.ifNext rfl (regular_parseCreate hr).atZero ?_
  refine Regular.ifNext rfl (regular_parseAlter hr).atZero ?_
  refine Regular.ifNext rfl regular_parseDrop ?_
  refine Regular.ifNext rfl ((regular_parseMerge hr).bind fun _ => regular_pure _).atZero ?_
  refine Regular.ifNext rfl (regular_parseBegin.bind fun _ => regular_pure _) ?_
  refine Regular.onToken rfl (regular_pure _) ?_
  refine Regular.onToken rfl (regular_pure _) ?_
  refine Regular.onToken rfl (hs.bind fun _ => regular_pure _) ?_
  exact Regular.ifNext rfl hs (regular_error fun _ => rfl)

theorem regular_parseStatement {fuel fuel' : Nat} (h : fuel' ≤ fuel) :
    Regular .eof 0 1 (parseStatement fuel) (parseStatement fuel') := by
  induction fuel generalizing fuel' with
  | zero =>
      obtain rfl := Nat.le_zero.mp h
      exact regular_unfinished
  | succ fuel ih =>
      cases fuel' with
      | zero =>
          have hr := (regular_calls (Nat.le_refl fuel)).atZero
          exact (regular_parseStatementWith hr (ih (Nat.le_refl fuel))).starved
      | succ fuel' =>
          have hle := Nat.le_of_succ_le_succ h
          exact regular_parseStatementWith (regular_calls hle).atZero (ih hle)

end Statements

end PostgressRs.Sql.StatementRegularity
