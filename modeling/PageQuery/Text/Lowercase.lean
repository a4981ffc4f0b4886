import PageQuery.Text.Letter
/-!
# Lower case

Two foldings.  `asciiLower` touches the letters A to Z and nothing else; names of settings and
variants are compared by it.  `lowercase` is the full mapping of the standard, by which text
filters compare: it is per letter except for the Greek capital sigma, which becomes the final
form at the end of a word, and for the dotted capital I, which becomes two characters.
-/
namespace PageQuery

def asciiLower (s : String) : String :=
  String.ofList (s.toList.map fun c =>
    if 'A' ≤ c && c ≤ 'Z' then Char.ofNat (c.toNat + 32) else c)

def sameAscii (a b : String) : Bool := asciiLower a == asciiLower b

def LowerRun.lower? (r : LowerRun) (n : Nat) : Option Nat :=
  if r.first ≤ n ∧ n ≤ r.last ∧ (n - r.first) % r.stride = 0 then some (r.target + (n - r.first))
  else none

def lowerChar (c : Char) : Char :=
  match lowerRuns.findSome? (fun r => r.lower? c.toNat) with
  | some n => Char.ofNat n
  | none => c

/-- Reading away from a letter, a cased character comes before any that is neither cased nor
skipped. -/
def reachesCased (cs : List Char) : Bool :=
  match cs.dropWhile caseIgnorableChars.holds with
  | [] => false
  | c :: _ => casedChars.holds c

/-- The sigma between two pieces of text, the first of them reversed: final when a word ends
there. -/
def lowerSigma (before after : List Char) : Char :=
  if reachesCased before && !reachesCased after then 'ς' else 'σ'

/-- The lower-case form of the text after `before`, which is kept reversed. -/
def lowerFrom (before : List Char) : List Char → List Char
  | [] => []
  | c :: rest =>
    (if c = 'Σ' then [lowerSigma before rest]
     else if c = 'İ' then ['i', '\u0307']
     else [lowerChar c]) ++ lowerFrom (c :: before) rest

def lowercase (s : String) : String := String.ofList (lowerFrom [] s.toList)

end PageQuery
