import PageQuery.Sql.Expr
/-!
# Statements

A statement selects expressions, each with an optional output name, from one table and its left
joins.  Conditions of rows and of groups are lists of conjuncts.
-/
namespace PageQuery

structure Item where
  expr : Expr
  name : Option String

structure SortKey where
  expr : Expr
  ascending : Bool

structure Statement where
  distinct : Bool
  items : List Item
  table : String
  label : String
  joins : List Join
  conditions : List Expr
  groupBy : List Expr
  having : List Expr
  orderBy : List SortKey
  limit : Option UInt64
  offset : Option UInt64

end PageQuery
