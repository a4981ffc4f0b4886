import PageQuery.Filter.Criterion
/-!
# Patterns of LIKE

A text match compares in lower case.  It is an equality when the pattern is exact and has no
wildcard; otherwise it becomes a LIKE pattern, in which percent, underscore and backslash of the
text are escaped by a backslash.
-/
namespace PageQuery

def escapeLike (c : Char) : List Char :=
  if c = '\\' ∨ c = '%' ∨ c = '_' then ['\\', c] else [c]

def wildcardLike (c : Char) : List Char :=
  if c = '*' then ['%'] else if c = '?' then ['_'] else escapeLike c

def likeChars? (mode : MatchMode) (cs : List Char) : Option (List Char) :=
  match mode with
  | .exact => if cs.any (fun c => c == '*' || c == '?') then some (cs.flatMap wildcardLike) else none
  | .startsWith => some (cs.flatMap escapeLike ++ ['%'])
  | .endsWith => some ('%' :: cs.flatMap escapeLike)
  | .contains => some ('%' :: cs.flatMap escapeLike ++ ['%'])

def TextMatch.like? (m : TextMatch) : Option String :=
  (likeChars? m.mode (lowercase m.pattern).toList).map String.ofList

end PageQuery
