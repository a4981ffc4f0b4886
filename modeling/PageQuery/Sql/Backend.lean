import PageQuery.Sql.Value
import PageQuery.Number.Decimal
import PageQuery.Text.Blank
import PageQuery.Text.Lowercase
import PageQuery.Text.Split
/-!
# Database backends

A backend decides how names and text are quoted, how bound values are numbered, and which form of
counting it prefers.
-/
namespace PageQuery

inductive Backend where
  | postgres
  | mysql
  | sqlite
  deriving DecidableEq, Repr

/-- How the count of a page ties its subquery to the counted table. -/
inductive CountIdiom where
  | inQuery
  | existsQuery
  deriving DecidableEq, Repr

/-- What the count may do: reuse a restriction that needs no joins, and its idiom. -/
structure Capabilities where
  copiesRestriction : Bool
  countIdiom : CountIdiom
  deriving DecidableEq, Repr

/-- A word of a setting, as it is compared: without blanks around it and in lower case. -/
def settingWord (s : String) : String := asciiLower (trim s)

def CountIdiom.ofName? (s : String) : Option CountIdiom :=
  if settingWord s = "in" then some .inQuery
  else if settingWord s = "exists" then some .existsQuery
  else none

namespace Backend

def name : Backend → String
  | .postgres => "postgres"
  | .mysql => "mysql"
  | .sqlite => "sqlite"

def names : List (String × Backend) :=
  [("postgres", .postgres), ("postgresql", .postgres), ("pg", .postgres),
   ("mysql", .mysql), ("mariadb", .mysql), ("sqlite", .sqlite)]

def ofName? (s : String) : Option Backend := names.lookup (settingWord s)

def ofUrl? (url : String) : Option Backend :=
  match splitText ':' url with
  | scheme :: _ :: _ => ofName? scheme
  | _ => none

def capabilities : Backend → Capabilities
  | .mysql => ⟨false, .existsQuery⟩
  | .postgres | .sqlite => ⟨true, .inQuery⟩

/-! ## Quoting -/

def nameQuote : Backend → Char
  | .mysql => '\x60'
  | .postgres | .sqlite => '"'

def quoteName (b : Backend) (s : String) : String :=
  let q := b.nameQuote
  String.singleton q ++ replaceChar q (String.ofList [q, q]) s ++ String.singleton q

/-- A character after a backslash, for those that need one. -/
def backslashed (c : Char) : List Char :=
  if c = '\\' ∨ c = '"' ∨ c = '\'' then ['\\', c]
  else if c = '\x00' then ['\\', '0']
  else if c = '\x08' then ['\\', 'b']
  else if c = '\t' then ['\\', 't']
  else if c = '\x1a' then ['\\', 'z']
  else if c = '\n' then ['\\', 'n']
  else if c = '\r' then ['\\', 'r']
  else [c]

def doubledQuote (c : Char) : List Char := if c = '\'' then ['\'', '\''] else [c]

/-- A text as it stands in a statement.  Postgres reads backslashes only in text marked by an
`E`. -/
def quoteText (b : Backend) (s : String) : String :=
  match b with
  | .sqlite => "'" ++ String.ofList (s.toList.flatMap doubledQuote) ++ "'"
  | .mysql => "'" ++ String.ofList (s.toList.flatMap backslashed) ++ "'"
  | .postgres =>
    let cs := s.toList.flatMap backslashed
    (if cs.contains '\\' then "E'" else "'") ++ String.ofList cs ++ "'"

def valueText (b : Backend) : Value → String
  | .boolean v => if v then "TRUE" else "FALSE"
  | .int32 n => toString n.toInt
  | .int64 n => toString n.toInt
  | .uint64 n => toString n.toNat
  | .double x => x.plain
  | .text s => b.quoteText s

def placeholder (b : Backend) (n : Nat) : String :=
  match b with
  | .postgres => "$" ++ toString n
  | .mysql | .sqlite => "?"

end Backend
end PageQuery
