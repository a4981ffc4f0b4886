/-!
# Sets of characters

A set is a list of inclusive ranges of code points, as the tables of a standard print them.
-/
namespace PageQuery

/-- Inclusive ranges of code points. -/
abbrev CharSet := List (Nat × Nat)

def CharSet.holds (s : CharSet) (c : Char) : Bool :=
  s.any fun r => decide (r.1 ≤ c.toNat) && decide (c.toNat ≤ r.2)

theorem CharSet.holds_iff (s : CharSet) (c : Char) :
    s.holds c = true ↔ ∃ r ∈ s, r.1 ≤ c.toNat ∧ c.toNat ≤ r.2 := by
  simp [CharSet.holds]

end PageQuery
