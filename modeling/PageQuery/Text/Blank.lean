import PageQuery.Text.CharSet
/-!
# Blanks, and text without blanks at its ends

A blank is a character with the property `White_Space`.  Names and numbers that a caller gives
as text are read between their outermost blanks.
-/
namespace PageQuery

def blankChars : CharSet :=
  [(0x9, 0xd), (0x20, 0x20), (0x85, 0x85), (0xa0, 0xa0), (0x1680, 0x1680), (0x2000, 0x200a),
   (0x2028, 0x2029), (0x202f, 0x202f), (0x205f, 0x205f), (0x3000, 0x3000)]

def isBlank (c : Char) : Bool := blankChars.holds c

def trimChars (cs : List Char) : List Char :=
  ((cs.dropWhile isBlank).reverse.dropWhile isBlank).reverse

def trim (s : String) : String := String.ofList (trimChars s.toList)

end PageQuery
