import PageQuery.Number.Whole
import PageQuery.Text.Blank
import PageQuery.Text.Lowercase
/-!
# The types that attributes declare

Scalars, enumerations with their variants in order, and references to another entity.
-/
namespace PageQuery

/-- A named list of variants; a variant's place in the list is its ordinal. -/
structure EnumType where
  name : String
  variants : List String
  deriving DecidableEq, Repr

/-- What the values of an attribute are. -/
inductive ValueType where
  | integer
  | float
  | text
  | boolean
  | enumerated (e : EnumType)
  | reference (entity : String)
  deriving DecidableEq, Repr

def ValueType.describe : ValueType → String
  | .integer => "integer"
  | .float => "float"
  | .text => "text"
  | .boolean => "boolean"
  | .enumerated e => "enum " ++ e.name
  | .reference entity => "entity " ++ entity

/-- The variant at a place; places before the first name nothing. -/
def EnumType.byOrdinal? (e : EnumType) (n : Int64) : Option String :=
  if 0 ≤ n.toInt then e.variants[n.toInt.toNat]? else none

/-- The variant a token means: by name between its blanks and up to ASCII case, the first such
variant winning, and only then by ordinal. -/
def EnumType.resolve? (e : EnumType) (token : String) : Option String :=
  match e.variants.find? (sameAscii · (trim token)) with
  | some v => some v
  | none =>
    match readSigned (trim token) with
    | .ok n => e.byOrdinal? n
    | .error _ => none

theorem EnumType.byOrdinal?_mem {e : EnumType} {n : Int64} {v : String}
    (h : e.byOrdinal? n = some v) : v ∈ e.variants := by
  unfold EnumType.byOrdinal? at h
  split at h
  · exact List.mem_of_getElem? h
  · simp at h

theorem EnumType.resolve?_mem {e : EnumType} {token v : String}
    (h : e.resolve? token = some v) : v ∈ e.variants := by
  unfold EnumType.resolve? at h
  split at h
  · next w hw => simp only [Option.some.injEq] at h; subst h; exact List.mem_of_find?_eq_some hw
  · split at h
    · exact EnumType.byOrdinal?_mem h
    · simp at h

end PageQuery
