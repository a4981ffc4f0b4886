import PageQuery.Filter.Predicate
/-!
# Compiling a criterion on a field

A field is resolved, its criterion built on the term found, and the operands bound get names from
the field.  A negation is different when the field crosses a to-many relation: a row that fails
the inner criterion says nothing about the other rows of the same entity, so the inner criterion
is compiled in a scope of its own and the entity must have no row there that meets it.
-/
namespace PageQuery

/-- Which rows a predicate speaks of: single rows, or groups. -/
inductive Level where
  | row
  | group
  deriving DecidableEq, Repr

/-- A membership test: the value tested, and how many different values are wanted. -/
structure Membership where
  value : Expr
  wanted : Nat

structure Predicate where
  field : String
  expr : Expr
  level : Level
  membership : Option Membership

/-- The count that asks for all values of a membership test: the test alone keeps the rows with
any of them. -/
def Predicate.countTest (p : Predicate) : Option Expr :=
  match p.membership with
  | some m =>
    if 1 < m.wanted then
      some (.compare .eq (.call .countDistinct m.value) (.value (.int64 (Int64.ofInt m.wanted))))
    else none
  | none => none

def parameterStem (field : String) : String := replaceChar '.' "_" field

/-- Operands under names that count on from the parameters already bound. -/
def nameOperands (field : String) : Nat → List Value → List Parameter
  | _, [] => []
  | n, v :: vs => ⟨parameterStem field ++ "_" ++ toString n, v⟩ :: nameOperands field (n + 1) vs

def bindOperands (ps : List Parameter) (field : String) (vs : List Value) : List Parameter :=
  ps ++ nameOperands field ps.length vs

/-- The outcome of compiling, with the scope and the parameters after it. -/
structure Compiled where
  scope : Scope
  parameters : List Parameter
  outcome : Except Failure Predicate

def predicateOf (field : String) (t : Term) (b : Built) : Predicate :=
  ⟨field, b.expr, if t.isAggregate then .group else .row, b.wanted.map fun n => ⟨t.expr, n⟩⟩

def compileOnTerm (s : Scope) (field : String) (c : Criterion) (ps : List Parameter) : Compiled :=
  match s.filterTarget field with
  | (s, .error f) => ⟨s, ps, .error f⟩
  | (s, .ok t) =>
    let b := c.build t
    let outcome : Except Failure Predicate :=
      match b.outcome with
      | .ok x => .ok (predicateOf field t x)
      | .error fault => .error (.criterion field fault)
    ⟨s, bindOperands ps field b.operands, outcome⟩

/-- No row of the entity meets the predicate; a wanted count is asked of the entity's rows as
one group. -/
def nonexistence (outer inner : Scope) (p : Predicate) : Expr :=
  let (groupBy, having) : List Expr × List Expr :=
    match p.countTest with
    | some count => ([inner.identity.expr], [count])
    | none => ([], [])
  .not (.nonempty (inner.correlated (.value (.int32 1)) outer.identity.expr [p.expr] groupBy having))

def compile (s : Scope) (field : String) (c : Criterion) (ps : List Parameter) : Compiled :=
  match c with
  | .negation inner =>
    if (s.field? field).isSome then compileOnTerm s field c ps
    else
      let positive := compileOnTerm s.detached field inner ps
      match positive.outcome with
      | .error f => ⟨s.opened, ps, .error f⟩
      | .ok p =>
        if positive.scope.hasToManyJoins then
          ⟨s.opened, positive.parameters,
            .ok ⟨field, nonexistence s positive.scope p, .row, none⟩⟩
        else compileOnTerm s.opened field c ps
  | _ => compileOnTerm s field c ps

end PageQuery
