import PageQuery.Schema.ValueType
import PageQuery.Sql.Expr
/-!
# Terms

A term is what a path means in a query: an expression, the type of its values, and where it comes
from, which decides whether a filter on it is of rows or of groups and whether a grouping must
list it.
-/
namespace PageQuery

inductive Origin where
  /-- A column of the root or of a joined entity. -/
  | column
  /-- The value column of a collection's join. -/
  | collection
  /-- A function of a group's rows. -/
  | aggregate
  /-- A subquery about the root row: fixed per identity. -/
  | derived
  deriving DecidableEq, Repr

structure Term where
  expr : Expr
  type : ValueType
  origin : Origin
  deriving DecidableEq

namespace Term

def isAggregate (t : Term) : Bool := t.origin == .aggregate

def isCollection (t : Term) : Bool := t.origin == .collection

def needsGrouping (t : Term) : Bool := t.origin == .column || t.origin == .collection

end Term
end PageQuery
