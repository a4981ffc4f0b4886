import PageQuery.Filter.Literal
import PageQuery.Schema.ValueType
/-!
# What can go wrong

Failures are causes; their wording is in one place each.  A failure of a criterion is *soft*: the
planner drops that criterion with a warning and goes on.  Every other failure ends the plan.
-/
namespace PageQuery

/-- Why a path names nothing. -/
inductive PathFault where
  | emptySegment
  | earlyMarker
  | notRelation (segment : String)
  | malformedMarker
  | notCollection (name : String)
  deriving DecidableEq, Repr

def PathFault.message : PathFault → String
  | .emptySegment => "empty segment"
  | .earlyMarker => "join markers are only allowed on the last segment"
  | .notRelation segment => "'" ++ segment ++ "' is not a relation"
  | .malformedMarker => "malformed join marker"
  | .notCollection name =>
    "'" ++ name ++ "' is not collection-valued and takes no join marker"

/-- Why a criterion does not fit a field's declared type. -/
inductive CriterionFault where
  | notBoolean (l : Literal)
  | notNumberText (s : String)
  | notNumberBool (b : Bool)
  | notWhole (x : Binary64)
  | notFinite (x : Binary64)
  | namesNoVariant (l : Literal) (enumName : String)
  | notVariant (l : Literal) (enumName : String)
  | notText (l : Literal)
  | notEntity (l : Literal) (entity : String)
  | typeNotNumeric (t : ValueType)
  | typeNotBoolean (t : ValueType)
  | typeNotEnum (t : ValueType)
  | typeNotText (t : ValueType)
  | noCandidates
  | noElement
  | needsList (kind : String)
  | needsLiterals (kind : String)
  /-- A plain literal of a kind that the declared type has no shorthand for. -/
  | unsupported (declared : ValueType) (value : Literal)
  deriving DecidableEq, Repr

def CriterionFault.reason : CriterionFault → String
  | .notBoolean l => l.describe ++ " is not a boolean"
  | .notNumberText s => "'" ++ s ++ "' is not a number"
  | .notNumberBool b => boolText b ++ " is not a number"
  | .notWhole x => x.plain ++ " is not an integer"
  | .notFinite x => x.plain ++ " is not finite"
  | .namesNoVariant l enumName => l.describe ++ " cannot name a variant of " ++ enumName
  | .notVariant l enumName => l.describe ++ " is not a variant of " ++ enumName
  | .notText l => l.describe ++ " is not text"
  | .notEntity l entity => l.describe ++ " cannot stand for entity " ++ entity
  | .typeNotNumeric t => "declared type " ++ t.describe ++ " is not numeric"
  | .typeNotBoolean t => "declared type " ++ t.describe ++ " is not boolean"
  | .typeNotEnum t => "declared type " ++ t.describe ++ " is not an enum"
  | .typeNotText t => "declared type " ++ t.describe ++ " is not text"
  | .noCandidates => "no enum candidates given"
  | .noElement => "no list element could be compiled"
  | .needsList kind => "collection-valued field needs a list of values, got " ++ kind
  | .needsLiterals kind => "collection values must be plain literals, got " ++ kind
  | .unsupported declared value =>
    value.describe ++ " has no shorthand at declared type " ++ declared.describe

def CriterionFault.message (field : String) : CriterionFault → String
  | .unsupported declared value =>
    "criterion for " ++ field ++ "(" ++ declared.describe ++ ") = " ++ value.describe ++ "(" ++
      value.kind ++ ") is not supported; wrap it in a structured criterion instead"
  | fault => "invalid criterion for '" ++ field ++ "': " ++ fault.reason

/-- Why a request or a criterion cannot be made. -/
inductive RequestFault where
  | doubleNegation
  | emptyList
  | objectValue
  | unrepresentableNumber (n : Int)
  | zeroLimit
  | duplicateOrdering (path : String)
  deriving DecidableEq, Repr

def RequestFault.message : RequestFault → String
  | .doubleNegation => "double negation; use the inner criterion instead"
  | .emptyList => "empty criterion list"
  | .objectValue => "object filter values are not supported"
  | .unrepresentableNumber n => "unrepresentable number " ++ toString n
  | .zeroLimit => "limit must be at least 1"
  | .duplicateOrdering path => "duplicate ordering on '" ++ path ++ "'"

/-- A failure of planning or of running a page. -/
inductive Failure where
  | unknownEntity (entity : String)
  | unknownAttribute (entity name : String)
  | invalidPath (path : String) (fault : PathFault)
  | criterion (field : String) (fault : CriterionFault)
  | invalidRequest (fault : RequestFault)
  | projectionRequired
  | executionFailed (cause : String)
  | undecodableRow (cause : String)
  deriving DecidableEq, Repr

namespace Failure

def message : Failure → String
  | .unknownEntity entity => "unknown entity: " ++ entity
  | .unknownAttribute entity name =>
    "unknown attribute '" ++ name ++ "' on entity '" ++ entity ++ "'"
  | .invalidPath path fault => "invalid path '" ++ path ++ "': " ++ fault.message
  | .criterion field fault => fault.message field
  | .invalidRequest fault => "invalid page request: " ++ fault.message
  | .projectionRequired =>
    "a projection mapping is required when the result type differs from the entity type"
  | .executionFailed _ => "query execution failed"
  | .undecodableRow _ => "failed to decode row"

/-- Soft failures are those of a single criterion. -/
def isSoft : Failure → Bool
  | .criterion _ _ => true
  | _ => false

end Failure
end PageQuery
