import PageQuery.Number.Decimal
import PageQuery.Text.Quoted
/-!
# Literals

The plain values a filter compares with.
-/
namespace PageQuery

inductive Literal where
  | integer (n : Int64)
  | float (x : Binary64)
  | text (s : String)
  | boolean (b : Bool)
  deriving DecidableEq, Repr

def boolText (b : Bool) : String := if b then "true" else "false"

namespace Literal

def kind : Literal → String
  | .integer _ => "integer"
  | .float _ => "float"
  | .text _ => "text"
  | .boolean _ => "boolean"

def describe : Literal → String
  | .integer n => toString n.toInt
  | .float x => x.plain
  | .text s => quoted s
  | .boolean b => boolText b

/-- How a literal stands inside the description of a structured criterion: with its kind, and
doubles marked as such. -/
def detail : Literal → String
  | .integer n => "Integer(" ++ toString n.toInt ++ ")"
  | .float x => "Float(" ++ x.marked ++ ")"
  | .text s => "Text(" ++ quoted s ++ ")"
  | .boolean b => "Bool(" ++ boolText b ++ ")"

def same : Literal → Literal → Bool
  | .integer m, .integer n => m == n
  | .float x, .float y => x.same y
  | .text s, .text t => s == t
  | .boolean a, .boolean b => a == b
  | _, _ => false

end Literal
end PageQuery
