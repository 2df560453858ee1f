import Mathlib.Data.List.Basic
import PostgressRs.Lib.TokenParser
import PostgressRs.Sql.Ast
import PostgressRs.Sql.ExprParser
import PostgressRs.Sql.Tokenizer
import PostgressRs.Sql.TokenStream

/-!
The parsers of data types and expressions are regular if the calls inside of them are.
They take a token before any such call, so they finish on one token more.
-/

namespace PostgressRs.Sql.ExprRegularity

open PostgressRs.Lib.TokenParser
open PostgressRs.Sql.Ast
open PostgressRs.Sql.ExprParser
open PostgressRs.Sql.Tokenizer
open PostgressRs.Sql.TokenStream

structure RegularCalls (n : Nat) (r r' : Calls) : Prop where
  expr : Regular .eof n 1 r.expr r'.expr
  bitwiseOr : Regular .eof n 1 r.bitwiseOr r'.bitwiseOr
  select : Regular .eof n 1 r.select r'.select
  dataType : Regular .eof n 1 r.dataType r'.dataType

variable {n : Nat} {r r' : Calls}

theorem RegularCalls.atZero (hr : RegularCalls n r r') : RegularCalls 0 r r' :=
  ⟨hr.expr.atZero, hr.bitwiseOr.atZero, hr.select.atZero, hr.dataType.atZero⟩

section DataTypes

theorem regular_typeLength (default : Nat) :
    Regular .eof n 1 (typeLength default) (typeLength default) :=
  Regular.onSome rfl (fun _ => regular_pure _) (regular_expectIdent.bind fun _ => regular_pure _)

theorem regular_lengthOf (constructor : Nat → DataType) (default : Nat) :
    Regular .eof n 0 (lengthOf constructor default) (lengthOf constructor default) := by
  refine Regular.onToken rfl ?_ (regular_pure _)
  exact (regular_typeLength default).bind fun _ =>
    (regular_expect (by decide)).bind fun _ => regular_pure _

theorem regular_bitLengthOf (constructor : Nat → DataType) :
    Regular .eof n 0 (bitLengthOf constructor) (bitLengthOf constructor) := by
  refine Regular.onToken rfl ?_ (regular_pure _)
  refine Regular.bind (m := 0) ?_ fun _ => ?_
  · exact Regular.onSome rfl (fun _ => regular_pure _) (regular_pure _)
  · exact (regular_expect (by decide)).bind fun _ => regular_pure _

theorem regular_numericType : Regular .eof n 0 numericType numericType := by
  refine Regular.onToken rfl ?_ (regular_pure _)
  refine (regular_typeLength 10).bind fun _ => ?_
  refine (regular_expect (by decide)).bind fun _ => ?_
  refine (regular_typeLength 0).bind fun _ => ?_
  exact (regular_expect (by decide)).bind fun _ => regular_pure _

theorem regular_withTimeZone (zoned plain : DataType) :
    Regular .eof n 0 (withTimeZone zoned plain) (withTimeZone zoned plain) := by
  refine Regular.onToken rfl ?_ (regular_pure _)
  exact (regular_expectKeyword _).bind fun _ =>
    (regular_expectKeyword _).bind fun _ => regular_pure _

theorem regular_customType : Regular .eof n 1 customType customType :=
  (regular_sepBy rfl regular_expectIdent).bind fun _ => regular_pure _

theorem regular_parseDataTypeBase (hr : RegularCalls n r r') :
    Regular .eof (n + 1) 1 (parseDataTypeBase r) (parseDataTypeBase r') := by
  refine Regular.onSomeSucc rfl regular_pure ?_
  refine Regular.onTokenSucc rfl ((regular_expectKeyword _).bind fun _ => regular_pure _) ?_
  refine Regular.onTokenSucc rfl regular_numericType ?_
  refine Regular.onTokenSucc rfl (regular_lengthOf _ _) ?_
  refine Regular.onTokenSucc rfl (regular_lengthOf _ _) ?_
  refine Regular.onTokenSucc rfl (regular_withTimeZone _ _) ?_
  refine Regular.onTokenSucc rfl (regular_withTimeZone _ _) ?_
  refine Regular.onTokenSucc rfl
    (Regular.onToken rfl (regular_bitLengthOf _) (regular_bitLengthOf _)) ?_
  refine Regular.onTokenSucc rfl (regular_bitLengthOf _) ?_
  refine Regular.onTokenSucc rfl ?_ ?_
  · refine (regular_expect (by decide)).bind fun _ => ?_
    refine hr.dataType.bind fun _ => ?_
    exact (regular_expect (by decide)).bind fun _ => regular_pure _
  · exact Regular.ifNext rfl regular_customType (regular_error fun _ => rfl)

theorem regular_parseDataType (hr : RegularCalls n r r') :
    Regular .eof (n + 1) 1 (parseDataType r) (parseDataType r') := by
  refine (regular_parseDataTypeBase hr).bindSucc fun _ => ?_
  refine Regular.onToken rfl ?_ (regular_pure _)
  exact (regular_expect (by decide)).bind fun _ => regular_pure _

end DataTypes

section Windows

theorem regular_orderByItem (hr : RegularCalls n r r') :
    Regular .eof n 1 (orderByItem r) (orderByItem r') :=
  hr.expr.bind fun _ => regular_sortDirection.bind fun _ =>
    regular_nullsOrder.bind fun _ => regular_pure _

theorem regular_listBy {α : Type} (word : String) {item item' : SqlParser α}
    (hitem : Regular .eof n 1 item item') :
    Regular .eof n 0 (listBy word item) (listBy word item') := by
  refine Regular.onToken rfl ?_ (regular_pure _)
  exact (regular_expectKeyword _).bind fun _ =>
    (regular_commaSeparated hitem).weaken

theorem regular_parseFrameBound (hr : RegularCalls n r r') :
    Regular .eof n 1 (parseFrameBound r) (parseFrameBound r') := by
  refine Regular.onToken rfl ?_ ?_
  · exact Regular.onToken rfl (regular_pure _)
      ((regular_expectKeyword _).bind fun _ => regular_pure _)
  refine Regular.onToken rfl ((regular_expectKeyword _).bind fun _ => regular_pure _) ?_
  refine hr.expr.bind fun _ => ?_
  exact Regular.onToken rfl (regular_pure _)
    ((regular_expectKeyword _).bind fun _ => regular_pure _)

theorem regular_parseFrame (hr : RegularCalls n r r') :
    Regular .eof n 1 (parseFrame r) (parseFrame r') := by
  have hbound := regular_parseFrameBound hr
  refine Regular.onToken rfl ?_ (hbound.bind fun _ => regular_pure _)
  refine hbound.bind fun _ => ?_
  refine (regular_expectKeyword _).bind fun _ => ?_
  exact hbound.bind fun _ => regular_pure _

theorem regular_parseWindowSpec (hr : RegularCalls n r r') :
    Regular .eof n 1 (parseWindowSpec r) (parseWindowSpec r') := by
  refine regular_parenthesized ?_
  refine (regular_listBy _ hr.expr).bind fun _ => ?_
  refine (regular_listBy _ (regular_orderByItem hr)).bind fun _ => ?_
  refine (regular_optionally rfl ?_).bind fun _ => regular_pure _
  exact (regular_parseFrame hr).weaken

end Windows

section Primary

theorem regular_datePart (place : String) :
    Regular .eof n 1 (datePart place) (datePart place) := by
  refine Regular.onSome rfl (fun s => ?_) (regular_failWith _)
  split
  · exact regular_pure _
  · exact regular_error fun _ => rfl

theorem regular_parseNested (hr : RegularCalls n r r') :
    Regular .eof n 1 (parseNested r) (parseNested r') :=
  Regular.ifNext rfl
    (hr.select.bind fun _ => (regular_expect (by decide)).bind fun _ => regular_pure _)
    (hr.expr.bind fun _ => (regular_expect (by decide)).bind fun _ => regular_pure _)

theorem regular_whenClause (hr : RegularCalls n r r') :
    Regular .eof n 1 (whenClause r) (whenClause r') :=
  hr.expr.bind fun _ => (regular_expectKeyword _).bind fun _ =>
    hr.expr.bind fun _ => regular_pure _

theorem advances_whenStep (hr : RegularCalls n r r') (clauses : List (WhenClause Expr)) :
    Advances .eof n (whenStep r clauses) (whenStep r' clauses) :=
  Advances.onToken rfl ((regular_whenClause hr).bind fun _ => regular_pure _) (advances_done _)

theorem regular_caseHead (hr : RegularCalls n r r') :
    Regular .eof n 1 (caseHead r) (caseHead r') :=
  Regular.onToken rfl ((regular_whenClause hr).bind fun _ => regular_pure _)
    (hr.expr.bind fun _ => regular_pure _)

theorem regular_parseCase (hr : RegularCalls n r r') :
    Regular .eof n 1 (parseCase r) (parseCase r') := by
  refine (regular_caseHead hr).bind fun head => ?_
  refine (regular_iterate (advances_whenStep hr) head.2).bind fun _ => ?_
  refine (regular_optionally rfl (hr.expr.weaken)).bind fun _ => ?_
  exact (regular_expectKeyword _).bind fun _ => regular_pure _

theorem regular_parseCast (hr : RegularCalls n r r') :
    Regular .eof n 1 (parseCast r) (parseCast r') := by
  refine regular_parenthesized ?_
  exact hr.expr.bind fun _ => (regular_expectKeyword _).bind fun _ =>
    hr.dataType.bind fun _ => regular_pure _

theorem regular_parseExtract (hr : RegularCalls n r r') :
    Regular .eof n 1 (parseExtract r) (parseExtract r') := by
  refine regular_parenthesized ?_
  exact (regular_datePart _).bind fun _ => (regular_expectKeyword _).bind fun _ =>
    hr.expr.bind fun _ => regular_pure _

theorem regular_parseDateTrunc (hr : RegularCalls n r r') :
    Regular .eof n 1 (parseDateTrunc r) (parseDateTrunc r') := by
  refine regular_parenthesized ?_
  refine (regular_datePart _).bind fun _ => ?_
  refine (regular_expect (by decide)).bind fun _ => ?_
  refine hr.expr.bind fun _ => ?_
  refine (regular_optionally rfl ?_).bind fun _ => regular_pure _
  exact (regular_expectKeyword _).bind fun _ => (regular_expectKeyword _).bind fun _ =>
    hr.expr.weaken

theorem regular_parseDatePart (hr : RegularCalls n r r') :
    Regular .eof n 1 (parseDatePart r) (parseDatePart r') := by
  refine regular_parenthesized ?_
  exact (regular_datePart _).bind fun _ => (regular_expect (by decide)).bind fun _ =>
    hr.expr.bind fun _ => regular_pure _

theorem regular_parseNow : Regular .eof n 1 parseNow parseNow :=
  (regular_expect (by decide)).bind fun _ =>
    (regular_expect (by decide)).bind fun _ => regular_pure _

theorem regular_callArgs (hr : RegularCalls n r r') :
    Regular .eof n 0 (callArgs r) (callArgs r') :=
  (regular_flag rfl).bind fun _ => Regular.onToken rfl (regular_pure _)
    ((regular_commaSeparated hr.expr).bind fun _ => regular_pure _)

theorem regular_parseCall (hr : RegularCalls n r r') (name : String) :
    Regular .eof n 0 (parseCall r name) (parseCall r' name) := by
  refine (regular_callArgs hr).bind fun _ => ?_
  refine (regular_expect (by decide)).bind fun _ => ?_
  refine (regular_optionally rfl ?_).bind fun _ => ?_
  · refine (regular_parenthesized ?_).weaken
    exact (regular_expectKeyword _).bind fun _ => hr.expr.weaken
  refine (regular_optionally rfl ?_).bind fun _ => regular_pure _
  exact (regular_parseWindowSpec hr).weaken

theorem regular_parseElements (hr : RegularCalls n r r') :
    Regular .eof n 1 (parseElements r) (parseElements r') :=
  (regular_commaSeparated hr.expr).bind fun _ =>
    (regular_expect (by decide)).bind fun _ => regular_pure _

theorem regular_qualified (name : String) :
    Regular .eof n 0 (qualified name) (qualified name) :=
  Regular.onToken rfl (regular_expectIdent.bind fun _ => regular_pure _) (regular_pure _)

theorem regular_parseNamed (hr : RegularCalls n r r') (name : String) :
    Regular .eof n 0 (parseNamed r name) (parseNamed r' name) := by
  refine Regular.onToken rfl (regular_parseCall hr name) ?_
  split
  · refine Regular.onToken rfl ?_ (regular_qualified name)
    exact (regular_parseElements hr).weaken
  · exact regular_qualified name

theorem regular_parseParameter : Regular .eof n 0 parseParameter parseParameter :=
  Regular.onSome rfl (fun _ => regular_pure _) (regular_pure _)

theorem regular_parsePrimary (hr : RegularCalls n r r') :
    Regular .eof (n + 1) 1 (parsePrimary r) (parsePrimary r') := by
  refine Regular.onSomeSucc rfl (fun _ => regular_pure _) ?_
  refine Regular.onTokenSucc rfl (regular_parseNested hr).weaken ?_
  refine Regular.onTokenSucc rfl (regular_parseCase hr).weaken ?_
  refine Regular.onTokenSucc rfl (regular_parseCast hr).weaken ?_
  refine Regular.onTokenSucc rfl (regular_parseExtract hr).weaken ?_
  refine Regular.onTokenSucc rfl (regular_parseDateTrunc hr).weaken ?_
  refine Regular.onTokenSucc rfl (regular_parseDatePart hr).weaken ?_
  refine Regular.onTokenSucc rfl regular_parseNow.weaken ?_
  refine Regular.onSomeSucc rfl (fun _ => regular_pure _) ?_
  refine Regular.onSomeSucc rfl (regular_parseNamed hr) ?_
  refine Regular.onTokenSucc rfl regular_parseParameter ?_
  refine Regular.onTokenSucc rfl (regular_parseElements hr).weaken ?_
  exact regular_error fun _ => rfl

end Primary

section Levels

theorem advances_chainStep {operator : Token → Option BinaryOperator}
    {operand operand' : SqlParser Expr} (hoperand : Regular .eof n 1 operand operand')
    (heof : operator .eof = none) (left : Expr) :
    Advances .eof n (chainStep operator operand left) (chainStep operator operand' left) :=
  Advances.onSome heof (fun _ => hoperand.bind fun _ => regular_pure _) (advances_done _)

theorem regular_chain {operator : Token → Option BinaryOperator} {operand operand' : SqlParser Expr}
    (heof : operator .eof = none) (hoperand : Regular .eof n 1 operand operand') :
    Regular .eof n 1 (chain operator operand) (chain operator operand') :=
  hoperand.bind fun left => regular_iterate (advances_chainStep hoperand heof) left

theorem advances_castStep (hr : RegularCalls n r r') (expr : Expr) :
    Advances .eof n (castStep r expr) (castStep r' expr) := by
  refine Advances.onTokens ?_ (advances_done _) (List.cons_ne_nil _ _) (by simp)
  exact hr.dataType.bind fun _ => regular_pure _

theorem advances_zoneStep (hr : RegularCalls n r r') (expr : Expr) :
    Advances .eof n (zoneStep r expr) (zoneStep r' expr) := by
  refine Advances.onTokens ?_ (advances_done _) (List.cons_ne_nil _ _) (by simp [keyword])
  exact hr.bitwiseOr.bind fun _ => regular_pure _

theorem regular_parsePostfix (hr : RegularCalls n r r') :
    Regular .eof (n + 1) 1 (parsePostfix r) (parsePostfix r') :=
  (regular_parsePrimary hr).bindSucc fun expr =>
    (regular_iterate (advances_castStep hr) expr).bind fun expr =>
      regular_iterate (advances_zoneStep hr) expr

theorem regular_parseUnary (hr : RegularCalls n r r') :
    Regular .eof (n + 1) 1 (parseUnary r) (parseUnary r') :=
  Regular.onSome rfl (fun _ => (regular_parsePostfix hr).bind fun _ => regular_pure _)
    (regular_parsePostfix hr)

theorem regular_parseMultiplicative (hr : RegularCalls n r r') :
    Regular .eof (n + 1) 1 (parseMultiplicative r) (parseMultiplicative r') :=
  regular_chain rfl (regular_parseUnary hr)

theorem regular_parseAdditive (hr : RegularCalls n r r') :
    Regular .eof (n + 1) 1 (parseAdditive r) (parseAdditive r') :=
  regular_chain rfl (regular_parseMultiplicative hr)

theorem regular_parseShift (hr : RegularCalls n r r') :
    Regular .eof (n + 1) 1 (parseShift r) (parseShift r') :=
  regular_chain rfl (regular_parseAdditive hr)

theorem regular_parseBitwiseAnd (hr : RegularCalls n r r') :
    Regular .eof (n + 1) 1 (parseBitwiseAnd r) (parseBitwiseAnd r') :=
  regular_chain rfl (regular_parseShift hr)

theorem regular_parseBitwiseXor (hr : RegularCalls n r r') :
    Regular .eof (n + 1) 1 (parseBitwiseXor r) (parseBitwiseXor r') :=
  regular_chain rfl (regular_parseBitwiseAnd hr)

theorem regular_parseBitwiseOr (hr : RegularCalls n r r') :
    Regular .eof (n + 1) 1 (parseBitwiseOr r) (parseBitwiseOr r') :=
  regular_chain rfl (regular_parseBitwiseXor hr)

theorem regular_parseIn (hr : RegularCalls n r r') (left : Expr) :
    Regular .eof n 1 (parseIn r left) (parseIn r' left) := by
  refine Regular.onToken rfl ?_ (regular_failWith _)
  refine (Regular.ifNext rfl ?_ ?_).weaken
  · exact hr.select.bind fun _ => (regular_expect (by decide)).bind fun _ => regular_pure _
  · exact (regular_commaSeparated hr.expr).bind fun _ =>
      (regular_expect (by decide)).bind fun _ => regular_pure _

theorem regular_parseBetween (hr : RegularCalls n r r') (left : Expr) :
    Regular .eof (n + 1) 1 (parseBetween r left) (parseBetween r' left) :=
  (regular_parseBitwiseOr hr).bind fun _ => (regular_expectKeyword _).bind fun _ =>
    (regular_parseBitwiseOr hr).bind fun _ => regular_pure _

theorem regular_parseIs (left : Expr) : Regular .eof n 1 (parseIs left) (parseIs left) := by
  refine Regular.onToken rfl (regular_pure _) ?_
  exact (regular_expectKeyword _).bind fun _ =>
    (regular_expectKeyword _).bind fun _ => regular_pure _

theorem regular_comparisonTail (hr : RegularCalls n r r') (left : Expr) :
    Regular .eof n 0 (comparisonTail r left) (comparisonTail r' left) := by
  have hoperand := (regular_parseBitwiseOr hr).mono (Nat.le_succ n) (Nat.le_refl 1)
  refine Regular.onSome rfl (fun op => ?_) ?_
  · refine Regular.onSome rfl (fun _ => ?_) (hoperand.bind fun _ => regular_pure _)
    exact ((regular_parsePrimary hr).mono (Nat.le_succ n) (Nat.zero_le 1)).bind
      fun _ => regular_pure _
  refine Regular.onToken rfl (regular_parseIn hr left).weaken ?_
  refine Regular.onToken rfl
    ((regular_parseBetween hr left).mono (Nat.le_succ n) (Nat.zero_le 1)) ?_
  refine Regular.onSome rfl (fun _ => hoperand.bind fun _ => regular_pure _) ?_
  exact Regular.onToken rfl (regular_parseIs left).weaken (regular_pure _)

theorem regular_parseComparison (hr : RegularCalls n r r') :
    Regular .eof (n + 1) 1 (parseComparison r) (parseComparison r') :=
  (regular_parseBitwiseOr hr).bindSucc (regular_comparisonTail hr)

theorem regular_parseNotExpr (hr : RegularCalls n r r') :
    Regular .eof (n + 1) 1 (parseNotExpr r) (parseNotExpr r') :=
  Regular.onToken rfl ((regular_parseComparison hr).bind fun _ => regular_pure _)
    (regular_parseComparison hr)

theorem regular_parseAndExpr (hr : RegularCalls n r r') :
    Regular .eof (n + 1) 1 (parseAndExpr r) (parseAndExpr r') :=
  regular_chain rfl (regular_parseNotExpr hr)

theorem regular_parseExpr (hr : RegularCalls n r r') :
    Regular .eof (n + 1) 1 (parseExpr r) (parseExpr r') :=
  regular_chain rfl (regular_parseAndExpr hr)

end Levels

end PostgressRs.Sql.ExprRegularity
