import PageQuery.Filter.Criterion
import PageQuery.Sql.Value
/-!
# Literals as operands

A literal becomes an operand of a declared type, or a fault says why it cannot: whole numbers are
read exactly or through a double that is one, doubles must be finite, truth values have a few
words, variants go by name or place.
-/
namespace PageQuery

/-- The whole number a double is, within the signed words other than the least. -/
def wholeOfDouble (x : Binary64) : Except CriterionFault Int64 :=
  match x.toInt? with
  | some n => if n.natAbs < 9223372036854775808 then .ok (Int64.ofInt n) else .error (.notWhole x)
  | none => .error (.notWhole x)

namespace Literal

def toWhole : Literal → Except CriterionFault Int64
  | .integer n => .ok n
  | .float x => wholeOfDouble x
  | .text s =>
    match readSigned (trim s) with
    | .ok n => .ok n
    | .error _ =>
      match Binary64.read? (trim s) with
      | some x => wholeOfDouble x
      | none => .error (.notNumberText (trim s))
  | .boolean b => .error (.notNumberBool b)

def finiteOnly (x : Binary64) : Except CriterionFault Binary64 :=
  if x.isFinite then .ok x else .error (.notFinite x)

def toDouble : Literal → Except CriterionFault Binary64
  | .integer n => finiteOnly (Binary64.ofInt n.toInt)
  | .float x => finiteOnly x
  | .text s =>
    match Binary64.read? (trim s) with
    | some x => finiteOnly x
    | none => .error (.notNumberText (trim s))
  | .boolean b => .error (.notNumberBool b)

def toNumber (l : Literal) : ValueType → Except CriterionFault Value
  | .integer => l.toWhole.map .int64
  | .float => l.toDouble.map .double
  | t => .error (.typeNotNumeric t)

def truthWord? (s : String) : Option Bool :=
  let w := asciiLower (trim s)
  if w = "true" ∨ w = "yes" ∨ w = "1" then some true
  else if w = "false" ∨ w = "no" ∨ w = "0" then some false
  else none

def toTruth? : Literal → Option Bool
  | .boolean b => some b
  | .integer n => if n = 0 then some false else if n = 1 then some true else none
  | .text s => truthWord? s
  | .float _ => none

def toTruth (l : Literal) : Except CriterionFault Bool :=
  match l.toTruth? with
  | some b => .ok b
  | none => .error (.notBoolean l)

def toVariant (l : Literal) (e : EnumType) : Except CriterionFault String :=
  let named (v : Option String) : Except CriterionFault String :=
    match v with
    | some v => .ok v
    | none => .error (.notVariant l e.name)
  match l with
  | .text s => named (e.resolve? s)
  | .integer n => named (e.byOrdinal? n)
  | _ => .error (.namesNoVariant l e.name)

def toElement (l : Literal) : ValueType → Except CriterionFault Value
  | .integer => l.toNumber .integer
  | .float => l.toNumber .float
  | .boolean => l.toTruth.map .boolean
  | .enumerated e => (l.toVariant e).map .text
  | .text =>
    match l with
    | .text s => .ok (.text s)
    | l => .error (.notText l)
  | .reference entity => .error (.notEntity l entity)

end Literal
end PageQuery
