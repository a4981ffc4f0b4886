import PageQuery.Number.Binary64
/-!
# Values in statements

What a statement binds or writes out: truth values, words of three widths, doubles and text.
-/
namespace PageQuery

inductive Value where
  | boolean (b : Bool)
  | int32 (n : Int32)
  | int64 (n : Int64)
  | uint64 (n : UInt64)
  | double (x : Binary64)
  | text (s : String)
  deriving DecidableEq, Repr

/-- Equality of values: doubles compare as numbers, all else exactly. -/
def Value.same : Value → Value → Bool
  | .double x, .double y => x.same y
  | a, b => a == b

/-- The values without those that occur earlier. -/
def Value.distinct (vs : List Value) : List Value :=
  vs.foldl (fun kept v => if kept.any v.same then kept else kept ++ [v]) []

end PageQuery
