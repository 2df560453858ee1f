import Mathlib.Data.List.Basic
import PostgressRs.Sql.Ast
import PostgressRs.Sql.Tokenizer

/-!
Expressions of operators, literals, names, cases and calls, and how they are written with
the parentheses that the levels of the operators ask for and no others.
-/

namespace PostgressRs.Sql.ExprPrinter

open PostgressRs.Sql.Ast
open PostgressRs.Sql.Tokenizer

/-- A name that is not a keyword. -/
abbrev Name : Type := { s : String // toUppercase s ∉ keywords }

mutual

inductive PlainExpr where
  | literal (lit : Literal)
  | identifier (name : Name)
  | qualifiedIdentifier (table column : Name)
  | binaryOp (left : PlainExpr) (op : BinaryOperator) (right : PlainExpr)
  | unaryOp (op : UnaryOperator) (expr : PlainExpr)
  | between (expr low high : PlainExpr)
  | inList (expr : PlainExpr) (list : PlainList)
  | isNull (expr : PlainExpr)
  | isNotNull (expr : PlainExpr)
  | case (operand : PlainOption) (whenClauses : PlainWhens) (elseClause : PlainOption)
  | call (name : Name) (args : PlainList)
  | callStar (name : Name)

/-- One or more. -/
inductive PlainList where
  | one (expr : PlainExpr)
  | cons (expr : PlainExpr) (list : PlainList)

inductive PlainOption where
  | none
  | some (expr : PlainExpr)

/-- One or more. -/
inductive PlainWhens where
  | one (condition result : PlainExpr)
  | cons (condition result : PlainExpr) (whens : PlainWhens)

end

section Trees

mutual

def PlainExpr.toExpr : PlainExpr → Expr
  | .literal lit => .literal lit
  | .identifier name => .identifier name.val
  | .qualifiedIdentifier table column => .qualifiedIdentifier table.val column.val
  | .binaryOp left op right => .binaryOp left.toExpr op right.toExpr
  | .unaryOp op expr => .unaryOp op expr.toExpr
  | .between expr low high => .between expr.toExpr false low.toExpr high.toExpr
  | .inList expr list => .inList expr.toExpr false list.toExprs
  | .isNull expr => .isNull expr.toExpr
  | .isNotNull expr => .isNotNull expr.toExpr
  | .case operand whenClauses elseClause =>
      .case operand.toExpr whenClauses.toClauses elseClause.toExpr
  | .call name args => .function ⟨.single name.val, args.toExprs.map .expr, none, none⟩
  | .callStar name => .function ⟨.single name.val, [.star], none, none⟩

def PlainList.toExprs : PlainList → List Expr
  | .one expr => [expr.toExpr]
  | .cons expr list => expr.toExpr :: list.toExprs

def PlainOption.toExpr : PlainOption → Option Expr
  | .none => none
  | .some expr => some expr.toExpr

def PlainWhens.toClauses : PlainWhens → List (WhenClause Expr)
  | .one condition result => [⟨condition.toExpr, result.toExpr⟩]
  | .cons condition result whens => ⟨condition.toExpr, result.toExpr⟩ :: whens.toClauses

end

end Trees

section Levels

/-- From `OR` to the operators that bind their operands first.  The operators of level 3
stand between operands of level 4. -/
def operatorLevel : BinaryOperator → Nat
  | .or => 0
  | .and => 1
  | .equals => 3
  | .notEquals => 3
  | .lessThan => 3
  | .greaterThan => 3
  | .lessOrEqual => 3
  | .greaterOrEqual => 3
  | .like => 3
  | .iLike => 3
  | .bitwiseOr => 4
  | .bitwiseXor => 5
  | .bitwiseAnd => 6
  | .bitwiseShiftLeft => 7
  | .bitwiseShiftRight => 7
  | .plus => 8
  | .minus => 8
  | .multiply => 9
  | .divide => 9
  | .modulo => 9

/-- The operators of a level associate to the left, except for comparisons. -/
def leftLevel (op : BinaryOperator) : Nat := if operatorLevel op = 3 then 4 else operatorLevel op

def unaryLevel : UnaryOperator → Nat
  | .not => 2
  | _ => 10

/-- An operand of a prefix operator has no prefix operator of its own. -/
def operandLevel : UnaryOperator → Nat
  | .not => 3
  | _ => 11

def PlainExpr.level : PlainExpr → Nat
  | .binaryOp _ op _ => operatorLevel op
  | .unaryOp op _ => unaryLevel op
  | .between .. => 3
  | .inList .. => 3
  | .isNull .. => 3
  | .isNotNull .. => 3
  | _ => 11

end Levels

section Printing

def operatorToken : BinaryOperator → Token
  | .or => .keyword "OR"
  | .and => .keyword "AND"
  | .equals => .eq
  | .notEquals => .neq
  | .lessThan => .lt
  | .greaterThan => .gt
  | .lessOrEqual => .ltEq
  | .greaterOrEqual => .gtEq
  | .like => .keyword "LIKE"
  | .iLike => .keyword "ILIKE"
  | .bitwiseOr => .pipe
  | .bitwiseXor => .caret
  | .bitwiseAnd => .ampersand
  | .bitwiseShiftLeft => .ltLt
  | .bitwiseShiftRight => .gtGt
  | .plus => .plus
  | .minus => .minus
  | .multiply => .star
  | .divide => .slash
  | .modulo => .percent

def unaryToken : UnaryOperator → Token
  | .plus => .plus
  | .minus => .minus
  | .not => .keyword "NOT"
  | .bitwiseNot => .tilde

def literalToken : Literal → Token
  | .number n => .number n
  | .string s => .string s
  | .bool true => .keyword "TRUE"
  | .bool false => .keyword "FALSE"
  | .null => .keyword "NULL"

def wrap (needed : Bool) (tokens : List Token) : List Token :=
  if needed then .lParen :: (tokens ++ [.rParen]) else tokens

mutual

def PlainExpr.print : PlainExpr → List Token
  | .literal lit => [literalToken lit]
  | .identifier name => [.ident name.val]
  | .qualifiedIdentifier table column => [.ident table.val, .dot, .ident column.val]
  | .binaryOp left op right =>
      wrap (left.level < leftLevel op) left.print ++
        operatorToken op :: wrap (right.level < operatorLevel op + 1) right.print
  | .unaryOp op expr => unaryToken op :: wrap (expr.level < operandLevel op) expr.print
  | .between expr low high =>
      wrap (expr.level < 4) expr.print ++
        .keyword "BETWEEN" :: (wrap (low.level < 4) low.print ++
          .keyword "AND" :: wrap (high.level < 4) high.print)
  | .inList expr list =>
      wrap (expr.level < 4) expr.print ++
        .keyword "IN" :: .lParen :: (list.print ++ [.rParen])
  | .isNull expr => wrap (expr.level < 4) expr.print ++ [.keyword "IS", .keyword "NULL"]
  | .isNotNull expr =>
      wrap (expr.level < 4) expr.print ++ [.keyword "IS", .keyword "NOT", .keyword "NULL"]
  | .case operand whenClauses elseClause =>
      .keyword "CASE" :: (operand.print ++ (whenClauses.print ++ elseClause.printElse))
  | .call name args => .ident name.val :: .lParen :: (args.print ++ [.rParen])
  | .callStar name => [.ident name.val, .lParen, .star, .rParen]

def PlainList.print : PlainList → List Token
  | .one expr => expr.print
  | .cons expr list => expr.print ++ .comma :: list.print

def PlainOption.print : PlainOption → List Token
  | .none => []
  | .some expr => expr.print

def PlainOption.printElse : PlainOption → List Token
  | .none => [.keyword "END"]
  | .some expr => .keyword "ELSE" :: (expr.print ++ [.keyword "END"])

def PlainWhens.print : PlainWhens → List Token
  | .one condition result =>
      .keyword "WHEN" :: (condition.print ++ .keyword "THEN" :: result.print)
  | .cons condition result whens =>
      .keyword "WHEN" :: (condition.print ++ .keyword "THEN" :: (result.print ++ whens.print))

end

/-- As an operand that is asked to be of a level or a higher one. -/
def PlainExpr.printAt (level : Nat) (expr : PlainExpr) : List Token :=
  wrap (expr.level < level) expr.print

variable (expr left right low high condition result : PlainExpr) (list : PlainList)
  (whens : PlainWhens) (operand elseClause : PlainOption) (name : Name)

theorem print_identifier : (PlainExpr.identifier name).print = [.ident name.val] := rfl

theorem print_qualifiedIdentifier (table column : Name) :
    (PlainExpr.qualifiedIdentifier table column).print =
      [.ident table.val, .dot, .ident column.val] := rfl

theorem print_binaryOp (op : BinaryOperator) :
    (PlainExpr.binaryOp left op right).print = left.printAt (leftLevel op) ++
      operatorToken op :: right.printAt (operatorLevel op + 1) := rfl

theorem print_unaryOp (op : UnaryOperator) :
    (PlainExpr.unaryOp op expr).print =
      unaryToken op :: expr.printAt (operandLevel op) := rfl

theorem print_between :
    (PlainExpr.between expr low high).print = expr.printAt 4 ++
      .keyword "BETWEEN" :: (low.printAt 4 ++ .keyword "AND" :: high.printAt 4) := rfl

theorem print_inList :
    (PlainExpr.inList expr list).print = expr.printAt 4 ++
      .keyword "IN" :: .lParen :: (list.print ++ [.rParen]) := rfl

theorem print_isNull :
    (PlainExpr.isNull expr).print =
      expr.printAt 4 ++ .keyword "IS" :: [.keyword "NULL"] := rfl

theorem print_isNotNull :
    (PlainExpr.isNotNull expr).print =
      expr.printAt 4 ++ .keyword "IS" :: [.keyword "NOT", .keyword "NULL"] := rfl

theorem print_case :
    (PlainExpr.case operand whens elseClause).print =
      .keyword "CASE" :: (operand.print ++ (whens.print ++ elseClause.printElse)) := rfl

theorem print_call :
    (PlainExpr.call name list).print =
      .ident name.val :: .lParen :: (list.print ++ [.rParen]) := rfl

theorem print_one : (PlainList.one expr).print = expr.print := rfl

theorem print_cons : (PlainList.cons expr list).print = expr.print ++ .comma :: list.print := rfl

theorem print_when :
    (PlainWhens.one condition result).print =
      .keyword "WHEN" :: (condition.print ++ .keyword "THEN" :: result.print) := rfl

theorem print_whens :
    (PlainWhens.cons condition result whens).print =
      .keyword "WHEN" ::
        (condition.print ++ .keyword "THEN" :: (result.print ++ whens.print)) := rfl

theorem printElse_some :
    (PlainOption.some expr).printElse =
      .keyword "ELSE" :: (expr.print ++ [.keyword "END"]) := rfl

end Printing

end PostgressRs.Sql.ExprPrinter
