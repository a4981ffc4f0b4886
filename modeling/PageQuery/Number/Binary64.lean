/-!
# Doubles, as signed multiples of the least one

Every finite double is a whole multiple of the least positive double, 2⁻¹⁰⁷⁴.  So a finite double
is kept as its sign and that multiple, exactly: equality of magnitudes is equality of naturals,
"is a whole number" is divisibility, and rounding is one division of naturals.  The two zeros are
told apart by the sign.  Not-a-number is one value.
-/
namespace PageQuery

/-- A double: not a number, an infinity, or a sign and a count of least units. -/
inductive Binary64 where
  | nan
  | infinite (negative : Bool)
  | finite (negative : Bool) (units : Nat)
  deriving DecidableEq, Repr

namespace Binary64

/-- The number of least units in one. -/
def unitsInOne : Nat := Nat.pow 2 1074

def overflowUnits : Nat := Nat.pow 2 2098

/-- The distance between neighbouring doubles near a magnitude: a double has 53 binary places. -/
def spacing (units : Nat) : Nat := Nat.pow 2 (units.log2 - 52)

/-- The quotient `n / d`, a half going to the even neighbour. -/
def roundHalfEven (n d : Nat) : Nat :=
  let q := n / d
  let r := n % d
  if 2 * r < d then q
  else if d < 2 * r then q + 1
  else if q % 2 = 0 then q else q + 1

/-- The nearest double to `n / d`, a half going to the even neighbour, too large ones to
infinity. -/
def ofRatio (negative : Bool) (n d : Nat) : Binary64 :=
  let step := spacing (n * unitsInOne / d)
  let units := roundHalfEven (n * unitsInOne) (d * step) * step
  if overflowUnits ≤ units then .infinite negative else .finite negative units

def ofInt (n : Int) : Binary64 := ofRatio (decide (n < 0)) n.natAbs 1

def isFinite : Binary64 → Bool
  | .finite _ _ => true
  | _ => false

def toInt? : Binary64 → Option Int
  | .finite negative units =>
    if units % unitsInOne = 0 then
      let n : Int := ((units / unitsInOne : Nat) : Int)
      some (if negative then -n else n)
    else none
  | _ => none

/-- Equality as numbers: the zeros are equal and not-a-number equals nothing. -/
def same : Binary64 → Binary64 → Bool
  | .finite s m, .finite t n => m == n && (s == t || m == 0)
  | .infinite s, .infinite t => s == t
  | _, _ => false

end Binary64
end PageQuery
