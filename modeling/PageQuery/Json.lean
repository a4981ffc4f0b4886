import PageQuery.Number.Binary64
/-!
# JSON values

Rows come back as JSON, and filters may be given as JSON.  A number written as a whole number
stays one; every other number is a double.
-/
namespace PageQuery

inductive Json where
  | null
  | boolean (b : Bool)
  | integer (n : Int)
  | float (x : Binary64)
  | text (s : String)
  | array (items : List Json)
  | object (members : List (String × Json))
  deriving Repr

namespace Json

def wordInt? : Json → Option Int64
  | .integer n =>
    if -9223372036854775808 ≤ n ∧ n ≤ 9223372036854775807 then some (Int64.ofInt n) else none
  | _ => none

def double? : Json → Option Binary64
  | .integer n => some (Binary64.ofInt n)
  | .float x => some x
  | _ => none

def mapMember (name : String) (f : Json → Json) : Json → Json
  | .object members => .object (members.map fun m => if m.1 = name then (m.1, f m.2) else m)
  | j => j

end Json
end PageQuery
