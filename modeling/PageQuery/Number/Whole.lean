/-!
# Whole numbers in text

An optional sign and at least one digit, read from the left.  The first fault from the left is
the one reported, and a digit that makes the number too large is a fault at its own place, so
nothing after it is looked at.
-/
namespace PageQuery

/-- Why a text is no whole number of the wanted size. -/
inductive WholeFault where
  | empty
  | badDigit
  | tooLarge
  deriving DecidableEq, Repr

def WholeFault.message : WholeFault → String
  | .empty => "cannot parse integer from empty string"
  | .badDigit => "invalid digit found in string"
  | .tooLarge => "number too large to fit in target type"

def digitValue? (c : Char) : Option Nat :=
  if '0' ≤ c ∧ c ≤ '9' then some (c.toNat - 48) else none

/-- Reads digits after a number `n` already read, none of the prefixes above `limit`. -/
def readDigits (limit : Nat) : Nat → List Char → Except WholeFault Nat
  | n, [] => .ok n
  | n, c :: cs =>
    match digitValue? c with
    | none => .error .badDigit
    | some d => if n * 10 + d ≤ limit then readDigits limit (n * 10 + d) cs else .error .tooLarge

def maxUnsigned : Nat := 18446744073709551615

def maxSigned : Nat := 9223372036854775807

def readUnsigned (s : String) : Except WholeFault UInt64 :=
  match s.toList with
  | [] => .error .empty
  | ['+'] => .error .badDigit
  | '+' :: cs => (readDigits maxUnsigned 0 cs).map Nat.toUInt64
  | cs => (readDigits maxUnsigned 0 cs).map Nat.toUInt64

def readSigned (s : String) : Except WholeFault Int64 :=
  match s.toList with
  | [] => .error .empty
  | ['+'] => .error .badDigit
  | ['-'] => .error .badDigit
  | '+' :: cs => (readDigits maxSigned 0 cs).map fun n => Int64.ofInt n
  | '-' :: cs => (readDigits (maxSigned + 1) 0 cs).map fun n => Int64.ofInt (-(n : Int))
  | cs => (readDigits maxSigned 0 cs).map fun n => Int64.ofInt n

end PageQuery
