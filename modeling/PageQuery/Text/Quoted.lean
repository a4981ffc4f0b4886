import PageQuery.Text.Visible
/-!
# Quoted text

How a text stands inside a message: between double quotes, on one line, with everything a reader
could not see written as an escape.
-/
namespace PageQuery

/-- A character inside quotes; one that cannot be seen is written by its code point, in lower-case
base 16. -/
def quoteChar (c : Char) : List Char :=
  if c = '"' ∨ c = '\\' then ['\\', c]
  else if c = '\n' then ['\\', 'n']
  else if c = '\r' then ['\\', 'r']
  else if c = '\t' then ['\\', 't']
  else if c = '\x00' then ['\\', '0']
  else if joiningChars.holds c || blindChars.holds c then
    ['\\', 'u', '\x7b'] ++ Nat.toDigits 16 c.toNat ++ ['\x7d']
  else [c]

def quoted (s : String) : String := String.ofList (['"'] ++ s.toList.flatMap quoteChar ++ ['"'])

end PageQuery
