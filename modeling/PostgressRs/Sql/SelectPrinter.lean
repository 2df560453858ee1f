import PostgressRs.Lib.ReadBack
import PostgressRs.Sql.FromClauseRoundTrip
import PostgressRs.Sql.OrderTexts

/-!
Selects with their clauses, subqueries and set operations, and how they are written.  The
scanner has no words for `OUTER` and `SHARE`, so no select is written with them.
-/

namespace PostgressRs.Sql.SelectPrinter

open PostgressRs.Lib.ReadBack
open PostgressRs.Sql.Ast
open PostgressRs.Sql.ExprPrinter
open PostgressRs.Sql.FromClauseRoundTrip
open PostgressRs.Sql.OrderTexts
open PostgressRs.Sql.Tokenizer

section Trees

abbrev PlainJoinType : Type := { joinType : WrittenType // joinType.writesOuter = false }

inductive PlainDistinct where
  | all
  | distinct
  | distinctOn (first : PlainExpr) (more : List PlainExpr)

inductive PlainItem where
  | star
  | tableStar (table : Name)
  | expr (expr : PlainExpr) (aliasName : Option WrittenAlias)

structure PlainOrderItem where
  expr : PlainExpr
  direction : SortDirection
  nulls : NullsOrder

inductive PlainLimit where
  | all
  | expr (expr : PlainExpr)

inductive PlainLocking where
  | forUpdate
  | forNoKeyUpdate

inductive PlainConstraint where
  | on (condition : PlainExpr)
  | usingColumns (first : Name) (more : List Name)
  | none

mutual

inductive PlainSelect where
  | mk (distinctKind : PlainDistinct) (firstItem : PlainItem) (moreItems : List PlainItem)
      (fromClause : PlainFrom) (whereClause : Option PlainExpr) (groupBy : List PlainExpr)
      (having : Option PlainExpr) (orderBy : List PlainOrderItem) (limit : Option PlainLimit)
      (offset : Option PlainExpr) (locking : List PlainLocking) (operations : PlainOperations)

inductive PlainTable where
  | named (name : DottedName)
  | subquery (select : PlainSelect)

inductive PlainFrom where
  | none
  | some (table : PlainTable) (aliasName : Option WrittenAlias) (joins : PlainJoins)

inductive PlainJoins where
  | nil
  | cons (joinType : PlainJoinType) (table : PlainTable) (aliasName : Option WrittenAlias)
      (constraint : PlainConstraint) (joins : PlainJoins)

/-- Only the last operand of all may stand without parentheses, and then what is written
behind it belongs to it. -/
inductive PlainOperations where
  | nil
  | last (operator : SetOperator) (select : PlainSelect)
  | cons (operator : SetOperator) (select : PlainSelect) (operations : PlainOperations)

end

def PlainDistinct.toClause : PlainDistinct → DistinctClause Expr
  | .all => .all
  | .distinct => .distinct
  | .distinctOn first more => .distinctOn (first.toExpr :: more.map PlainExpr.toExpr)

def PlainItem.toItem : PlainItem → SelectItem Expr
  | .star => .star
  | .tableStar table => .tableStar table.val
  | .expr plain none => .expr plain.toExpr
  | .expr plain (some aliasName) => .exprAs plain.toExpr aliasName.name.val

def PlainOrderItem.toItem (item : PlainOrderItem) : OrderByItem Expr :=
  ⟨item.expr.toExpr, item.direction, item.nulls⟩

def PlainLimit.toClause : PlainLimit → LimitClause Expr
  | .all => .all
  | .expr plain => .expr plain.toExpr

def PlainLocking.toClause : PlainLocking → LockingClause
  | .forUpdate => .forUpdate
  | .forNoKeyUpdate => .forNoKeyUpdate

def PlainConstraint.toConstraint : PlainConstraint → JoinConstraint Expr
  | .on condition => .on condition.toExpr
  | .usingColumns first more => .usingColumns (first.val :: more.map Subtype.val)
  | .none => .none

mutual

def PlainSelect.toSelect : PlainSelect → SelectStatement
  | .mk distinctKind firstItem moreItems fromClause whereClause groupBy having orderBy limit
      offset locking operations =>
      .mk distinctKind.toClause (firstItem.toItem :: moreItems.map PlainItem.toItem)
        fromClause.toClause (whereClause.map PlainExpr.toExpr) (groupBy.map PlainExpr.toExpr)
        (having.map PlainExpr.toExpr) (orderBy.map PlainOrderItem.toItem)
        (limit.map PlainLimit.toClause) (offset.map PlainExpr.toExpr)
        (locking.map PlainLocking.toClause) operations.toOperations

def PlainTable.toTable : PlainTable → TableRef SelectStatement
  | .named name => name.toTable
  | .subquery select => .subquery select.toSelect

def PlainFrom.toClause : PlainFrom → Option (FromClause Expr SelectStatement)
  | .none => Option.none
  | .some table aliasName joins =>
      Option.some ⟨⟨table.toTable, aliasText aliasName, .inner, .none⟩ :: joins.toJoins⟩

def PlainJoins.toJoins : PlainJoins → List (Join Expr SelectStatement)
  | .nil => []
  | .cons joinType table aliasName constraint joins =>
      ⟨table.toTable, aliasText aliasName, joinType.val.toJoinType, constraint.toConstraint⟩ ::
        joins.toJoins

def PlainOperations.toOperations : PlainOperations → List (SetOperation SelectStatement)
  | .nil => []
  | .last operator select => [⟨operator, select.toSelect⟩]
  | .cons operator select operations =>
      ⟨operator, select.toSelect⟩ :: operations.toOperations

end

end Trees

section Printing

/-- A clause that may be left out, with its word. -/
def printClause {α : Type} (word : String) (print : α → List Token) : Option α → List Token
  | none => []
  | some a => .keyword word :: print a

/-- A list that may be left out, with its words. -/
def printBy {α : Type} (word : String) (print : α → List Token) : List α → List Token
  | [] => []
  | first :: more => .keyword word :: .keyword "BY" :: printSep .comma print first more

def PlainDistinct.print : PlainDistinct → List Token
  | .all => []
  | .distinct => [.keyword "DISTINCT"]
  | .distinctOn first more =>
      .keyword "DISTINCT" :: .keyword "ON" :: .lParen ::
        (printSep .comma PlainExpr.print first more ++ [.rParen])

def PlainItem.print : PlainItem → List Token
  | .star => [.star]
  | .tableStar table => [.star, .dot, .ident table.val]
  | .expr plain aliasName => plain.print ++ printAlias aliasName

def PlainOrderItem.print (item : PlainOrderItem) : List Token :=
  item.expr.print ++ (directionWords item.direction ++ nullsWords item.nulls)

def PlainLimit.print : PlainLimit → List Token
  | .all => [.keyword "ALL"]
  | .expr plain => plain.print

def PlainLocking.print : PlainLocking → List Token
  | .forUpdate => [.keyword "FOR", .keyword "UPDATE"]
  | .forNoKeyUpdate => [.keyword "FOR", .keyword "NO", .keyword "KEY", .keyword "UPDATE"]

def PlainConstraint.print : PlainConstraint → List Token
  | .on condition => .keyword "ON" :: condition.print
  | .usingColumns first more =>
      .keyword "USING" :: .lParen ::
        (printSep .comma (fun name : Name => [.ident name.val]) first more ++ [.rParen])
  | .none => []

def operatorWords : SetOperator → List Token
  | .union => [.keyword "UNION"]
  | .unionAll => [.keyword "UNION", .keyword "ALL"]
  | .intersect => [.keyword "INTERSECT"]
  | .intersectAll => [.keyword "INTERSECT", .keyword "ALL"]
  | .except => [.keyword "EXCEPT"]
  | .exceptAll => [.keyword "EXCEPT", .keyword "ALL"]

mutual

def PlainSelect.print : PlainSelect → List Token
  | .mk distinctKind firstItem moreItems fromClause whereClause groupBy having orderBy limit
      offset locking operations =>
      .keyword "SELECT" :: (distinctKind.print ++
        (printSep .comma PlainItem.print firstItem moreItems ++ (fromClause.print ++
          (printClause "WHERE" PlainExpr.print whereClause ++
            (printBy "GROUP" PlainExpr.print groupBy ++
              (printClause "HAVING" PlainExpr.print having ++
                (printBy "ORDER" PlainOrderItem.print orderBy ++
                  (printClause "LIMIT" PlainLimit.print limit ++
                    (printClause "OFFSET" PlainExpr.print offset ++
                      (locking.flatMap PlainLocking.print ++ operations.print))))))))))

def PlainTable.print : PlainTable → List Token
  | .named name => name.print
  | .subquery select => .lParen :: (select.print ++ [.rParen])

def PlainFrom.print : PlainFrom → List Token
  | .none => []
  | .some table aliasName joins =>
      .keyword "FROM" :: (table.print ++ (printAlias aliasName ++ joins.print))

def PlainJoins.print : PlainJoins → List Token
  | .nil => []
  | .cons joinType table aliasName constraint joins =>
      joinType.val.print ++ (table.print ++ (printAlias aliasName ++ (constraint.print ++
        joins.print)))

def PlainOperations.print : PlainOperations → List Token
  | .nil => []
  | .last operator select => operatorWords operator ++ select.print
  | .cons operator select operations =>
      operatorWords operator ++ (.lParen :: (select.print ++ .rParen :: operations.print))

end

end Printing

end PostgressRs.Sql.SelectPrinter
