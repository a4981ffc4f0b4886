import PageQuery.Filter.Compile
/-!
# Restrictions

The conditions of a query: those of rows, the grouping, and those of groups.  Predicates are sent
to the one or the other by their level, counts always to the groups; the optional predicates are
one disjunction, of groups when any of them is.
-/
namespace PageQuery

structure Restriction where
  conditions : List Expr
  groupBy : List Expr
  having : List Expr
  deriving DecidableEq

def addGrouping (groupBy : List Expr) (e : Expr) : List Expr :=
  if e ∈ groupBy then groupBy else groupBy ++ [e]

theorem mem_addGrouping {groupBy : List Expr} {e x : Expr} :
    x ∈ addGrouping groupBy e ↔ x ∈ groupBy ∨ x = e := by
  unfold addGrouping
  split
  · constructor
    · exact Or.inl
    · rintro (h | rfl)
      · exact h
      · assumption
  · simp

theorem nodup_addGrouping {groupBy : List Expr} (e : Expr) (h : groupBy.Nodup) :
    (addGrouping groupBy e).Nodup := by
  unfold addGrouping
  split
  · exact h
  · next he =>
    refine List.nodup_append.2 ⟨h, by simp, fun a ha b hb => ?_⟩
    rw [List.mem_singleton.1 hb]
    rintro rfl
    exact he ha

namespace Restriction

def ofConditions (conditions : List Expr) : Restriction := ⟨conditions, [], []⟩

/-- Adds a predicate, and after it the count it asks for. -/
def addPredicate (r : Restriction) (p : Predicate) : Restriction :=
  let r : Restriction :=
    match p.level with
    | .row => { r with conditions := r.conditions ++ [p.expr] }
    | .group => { r with having := r.having ++ [p.expr] }
  { r with having := r.having ++ p.countTest.toList }

def addOptional (r : Restriction) (ps : List Predicate) : Restriction :=
  match Expr.disjunction (ps.map Predicate.expr) with
  | none => r
  | some e =>
    if ps.any (fun p => p.level == .group) then { r with having := r.having ++ [e] }
    else { r with conditions := r.conditions ++ [e] }

/-- Conditions of groups need a grouping by the identity. -/
def groupByIdentity (r : Restriction) (identity : Expr) : Restriction :=
  if r.having.isEmpty then r else { r with groupBy := addGrouping r.groupBy identity }

def route (r : Restriction) (required optional : List Predicate) (identity : Expr) : Restriction :=
  ((required.foldl addPredicate r).addOptional optional).groupByIdentity identity

def isEmpty (r : Restriction) : Bool :=
  r.conditions.isEmpty && r.having.isEmpty && r.groupBy.isEmpty

end Restriction
end PageQuery
