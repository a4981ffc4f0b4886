import PageQuery.Failure
import PageQuery.Text.Split
/-!
# Paths and their markers

A path is a list of attribute names with dots between them.  Its last name may carry a marker when
it is a collection: `@tags` means the join that reading shares, `@tags@` the join of its own that
membership tests use.
-/
namespace PageQuery

inductive Marker where
  | plain
  | shared
  | membership
  deriving DecidableEq, Repr

structure FieldPath where
  parents : List String
  last : String
  deriving DecidableEq, Repr

def FieldPath.parse (path : String) : Except Failure FieldPath :=
  let segments := splitText '.' path
  if segments.any (fun s => s.isEmpty) then .error (.invalidPath path .emptySegment)
  else .ok ⟨segments.dropLast, segments.getLastD ""⟩

def hasChar (c : Char) (s : String) : Bool := s.toList.contains c

def parseMarker (path segment : String) : Except Failure (String × Marker) :=
  let (cs, marker) : List Char × Marker :=
    match segment.toList with
    | '@' :: rest =>
      if rest.getLast? = some '@' then (rest.dropLast, .membership) else (rest, .shared)
    | cs => (cs, .plain)
  if cs.isEmpty || cs.contains '@' then .error (.invalidPath path .malformedMarker)
  else .ok (String.ofList cs, marker)

def markLast (opening closing path : String) : String :=
  let segments := splitText '.' path
  joinText "." (segments.dropLast ++ [opening ++ segments.getLastD "" ++ closing])

/-- The path marked for the shared join of its collection. -/
def sharedPath (path : String) : String := markLast "@" "" path

def membershipPath (path : String) : String := markLast "@" "@" path

end PageQuery
