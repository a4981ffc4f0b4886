import PageQuery.Number.Binary64
import PageQuery.Number.Whole
/-!
# Doubles in decimal

Writing chooses the fewest digits that read back to the same double, and of those the nearest to
it; a tie goes up.  Two layouts share the digits: the plain one never has an exponent and writes
a whole number without a point, the marked one always shows that the number is a double.

Reading accepts a sign, digits with at most one point, an optional exponent, and the words for
infinity and not-a-number, and rounds to the nearest double.
-/
namespace PageQuery
namespace Binary64

/-! ## Which digits -/

/-- Digits and a power of ten: `digits` is the whole number they spell, the value is
`digits · 10 ^ exponent`. -/
structure Decimal where
  digits : Nat
  exponent : Int
  deriving DecidableEq, Repr

def tenTo (e : Int) : Nat × Nat :=
  if 0 ≤ e then (Nat.pow 10 e.toNat, 1) else (1, Nat.pow 10 (-e).toNat)

/-- The reals that round to a magnitude lie between two bounds, here in quarters of a unit.  Below
a power of two the neighbour is half as far. -/
def lowerBound (units : Nat) : Nat :=
  let step := spacing units
  if 1 < step ∧ units = Nat.pow 2 units.log2 then 4 * units - step else 4 * units - 2 * step

def upperBound (units : Nat) : Nat := 4 * units + 2 * spacing units

/-- Whether `digits · 10 ^ exponent` reads back as the magnitude.  The bounds themselves do when
the last binary place is even. -/
def readsBack (units : Nat) (x : Decimal) : Bool :=
  let (up, down) := tenTo x.exponent
  let value := 4 * x.digits * up * unitsInOne
  let low := lowerBound units * down
  let high := upperBound units * down
  if units / spacing units % 2 = 0 then decide (low ≤ value) && decide (value ≤ high)
  else decide (low < value) && decide (value < high)

/-- The better of the two grid points around a magnitude, if either reads back: the nearer one,
the upper one on a tie. -/
def onGrid (units : Nat) (exponent : Int) : Option Decimal :=
  let (up, down) := tenTo exponent
  let num := units * down
  let den := up * unitsInOne
  let below : Decimal := ⟨num / den, exponent⟩
  let above : Decimal := ⟨num / den + 1, exponent⟩
  match readsBack units below, readsBack units above with
  | true, true => if 2 * (num % den) < den then some below else some above
  | true, false => some below
  | false, true => some above
  | false, false => none

/-- The first grid, from coarse to fine, with a point that reads back; seventeen digits are
always enough. -/
def firstOnGrid (units : Nat) : Nat → Int → Decimal
  | 0, exponent => ⟨(units * (tenTo exponent).2) / ((tenTo exponent).1 * unitsInOne), exponent⟩
  | n + 1, exponent =>
    match onGrid units exponent with
    | some x => x
    | none => firstOnGrid units n (exponent - 1)

/-- The least `j` with `num · 10 ^ j ≥ den`, looked for `fuel` steps far. -/
def leadingZeros : Nat → Nat → Nat → Nat
  | 0, _, _ => 0
  | fuel + 1, num, den => if den ≤ num then 0 else leadingZeros fuel (num * 10) den + 1

def leadingExponent (units : Nat) : Int :=
  if unitsInOne ≤ units then
    ((Nat.toDigits 10 (units / unitsInOne)).length : Int) - 1
  else -((leadingZeros 400 units unitsInOne : Nat) : Int)

def Decimal.stripped : Nat → Decimal → Decimal
  | 0, x => x
  | fuel + 1, x =>
    if x.digits ≠ 0 ∧ x.digits % 10 = 0 then
      Decimal.stripped fuel ⟨x.digits / 10, x.exponent + 1⟩
    else x

def shortest (units : Nat) : Decimal :=
  Decimal.stripped 20 (firstOnGrid units 17 (leadingExponent units))

/-! ## How they are laid out -/

def digitChars (n : Nat) : List Char := Nat.toDigits 10 n

/-- Digits with a point at `point` places from their start, zeros filling up either side. -/
def positional (digits : List Char) (point : Int) : List Char :=
  if point ≤ 0 then ['0', '.'] ++ List.replicate (-point).toNat '0' ++ digits
  else if point.toNat < digits.length then
    digits.take point.toNat ++ ['.'] ++ digits.drop point.toNat
  else digits ++ List.replicate (point.toNat - digits.length) '0'

def plainUnits (units : Nat) : String :=
  if units = 0 then "0"
  else
    let x := shortest units
    let ds := digitChars x.digits
    String.ofList (positional ds (x.exponent + ds.length))

def scientificUnits (units : Nat) : String :=
  let x := shortest units
  let ds := digitChars x.digits
  let e : Int := x.exponent + ds.length - 1
  String.ofList (ds.take 1 ++ (if ds.length = 1 then [] else ['.'] ++ ds.drop 1)) ++ "e" ++ toString e

def signText (negative : Bool) : String := if negative then "-" else ""

def plain : Binary64 → String
  | .nan => "NaN"
  | .infinite negative => signText negative ++ "inf"
  | .finite negative units => signText negative ++ plainUnits units

def usesExponent (units : Nat) : Bool :=
  decide (Nat.pow 10 16 * unitsInOne ≤ units) ||
    (decide (units ≠ 0) && decide (units * Nat.pow 10 4 < unitsInOne))

/-- The marked text: a point or an exponent shows that the number is a double. -/
def marked : Binary64 → String
  | .nan => "NaN"
  | .infinite negative => signText negative ++ "inf"
  | .finite negative units =>
    signText negative ++
      (if usesExponent units then scientificUnits units
       else if units % unitsInOne = 0 then plainUnits units ++ ".0"
       else plainUnits units)

/-! ## Reading -/

def spanDigits (cs : List Char) : List Char × List Char :=
  (cs.takeWhile Char.isDigit, cs.dropWhile Char.isDigit)

def digitsValue (cs : List Char) : Nat :=
  cs.foldl (fun n c => n * 10 + (c.toNat - 48)) 0

def readExponent? : List Char → Option Int
  | [] => some 0
  | c :: cs =>
    if c = 'e' ∨ c = 'E' then
      let (negative, ds) : Bool × List Char :=
        match cs with
        | '-' :: ds => (true, ds)
        | '+' :: ds => (false, ds)
        | ds => (false, ds)
      if ds ≠ [] ∧ ds.all Char.isDigit then
        some (if negative then -(digitsValue ds : Int) else digitsValue ds)
      else none
    else none

/-- The nearest double to `digits · 10 ^ exponent`.  Exponents far outside the range of doubles
are settled by the position of the leading digit. -/
def ofDecimal (negative : Bool) (digits : List Char) (exponent : Int) : Binary64 :=
  let ds := digits.dropWhile (· = '0')
  let leading : Int := exponent + ds.length
  if ds = [] then .finite negative 0
  else if 400 < leading then .infinite negative
  else if leading < -400 then .finite negative 0
  else
    let (up, down) := tenTo exponent
    ofRatio negative (digitsValue ds * up) down

/-- An unsigned number: digits with an optional point among or around them, then an exponent. -/
def readMagnitude? (negative : Bool) (cs : List Char) : Option Binary64 :=
  let (whole, rest) := spanDigits cs
  let (fraction, rest) : List Char × List Char :=
    match rest with
    | '.' :: more => spanDigits more
    | rest => ([], rest)
  if whole = [] ∧ fraction = [] then none
  else (readExponent? rest).map fun e => ofDecimal negative (whole ++ fraction) (e - fraction.length)

def readWord? (negative : Bool) (cs : List Char) : Option Binary64 :=
  let word := cs.map Char.toLower
  if word = ['n', 'a', 'n'] then some .nan
  else if word = ['i', 'n', 'f'] ∨ word = ['i', 'n', 'f', 'i', 'n', 'i', 't', 'y'] then
    some (.infinite negative)
  else none

def readUnsigned? (negative : Bool) (cs : List Char) : Option Binary64 :=
  match readWord? negative cs with
  | some x => some x
  | none => readMagnitude? negative cs

def read? (s : String) : Option Binary64 :=
  match s.toList with
  | '+' :: cs => readUnsigned? false cs
  | '-' :: cs => readUnsigned? true cs
  | cs => readUnsigned? false cs

end Binary64
end PageQuery
