import PageQuery.Filter.Binding
import PageQuery.Schema.ValueType
import PageQuery.Sql.Token
/-!
# Plans

A plan is a statement with what its caller needs to run it: the output columns with their types,
the parameters by name, and a profile that answers the caller's questions without reading the
statement.
-/
namespace PageQuery

structure OutputColumn where
  name : String
  type : ValueType
  deriving DecidableEq, Repr

/-- What a caller may ask of a plan. -/
structure Profile where
  ordered : Bool
  distinct : Bool
  limit : Option UInt64
  offset : Option UInt64
  joined : Bool
  /-- The number of expressions that rows are grouped by. -/
  groupings : Nat
  /-- Whether groups are restricted, in the statement or in the subquery that it counts. -/
  restrictsGroups : Bool
  deriving DecidableEq, Repr

structure Plan where
  statement : Statement
  columns : List OutputColumn
  parameters : List Parameter
  profile : Profile

/-- The plan of a page's rows, and of its total when that is wanted. -/
structure PagePlan where
  data : Plan
  count : Option Plan

end PageQuery
