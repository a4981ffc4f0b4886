import PageQuery.Page.Request
import PageQuery.Plan.Projection
import PageQuery.Plan.Restriction
/-!
# Preparing a query root

Everything that a request restricts is compiled against one root under one label: the recipe runs
first, its fields shadow paths from then on, and the criteria follow, the required before the
optional.  A soft failure drops its criterion and is reported; any other ends the preparation.  The
journal of what happened is kept either way.
-/
namespace PageQuery

/-- A criterion that was dropped, and why. -/
structure Dropped where
  path : String
  criterion : Criterion
  failure : Failure

/-- A run of the recipe: its root, what its steps did, and the fields if it finished. -/
structure RecipeRun where
  label : String
  root : String
  results : List StepResult
  fields : Option Projection

/-- What happened while a plan was built. -/
structure Journal where
  dropped : List Dropped
  runs : List RecipeRun

namespace Journal

def empty : Journal := ⟨[], []⟩

def append (a b : Journal) : Journal := ⟨a.dropped ++ b.dropped, a.runs ++ b.runs⟩

end Journal

/-! ## Compiling criteria -/

structure CompiledAll where
  scope : Scope
  parameters : List Parameter
  dropped : List Dropped
  outcome : Except Failure (List Predicate)

/-- Compiles filters in order, dropping those that fail softly. -/
def compileAll (s : Scope) (ps : List Parameter) : List Filter → CompiledAll
  | [] => ⟨s, ps, [], .ok []⟩
  | f :: fs =>
    let c := compile s f.path f.criterion ps
    match c.outcome with
    | .ok p =>
      let rest := compileAll c.scope c.parameters fs
      { rest with outcome := rest.outcome.map (p :: ·) }
    | .error e =>
      if e.isSoft then
        let rest := compileAll c.scope c.parameters fs
        { rest with dropped := ⟨f.path, f.criterion, e⟩ :: rest.dropped }
      else ⟨c.scope, c.parameters, [], .error e⟩

/-! ## One root -/

structure Prepared where
  scope : Scope
  projection : Option Projection
  restriction : Restriction
  parameters : List Parameter

def Scope.withFields (s : Scope) (p : Option Projection) : Scope :=
  { s with fields := p.getD [] }

/-- Compiles the criteria of a request on top of the conditions of a recipe. -/
def restrict (s : Scope) (r : Request) (projection : Option Projection) (conditions : List Expr) :
    List Dropped × Except Failure Prepared :=
  let required := compileAll s [] r.required
  match required.outcome with
  | .error e => (required.dropped, .error e)
  | .ok must =>
    let optional := compileAll required.scope required.parameters r.optional
    let dropped := required.dropped ++ optional.dropped
    match optional.outcome with
    | .error e => (dropped, .error e)
    | .ok may =>
      let restriction :=
        (Restriction.ofConditions conditions).route must may optional.scope.identity.expr
      (dropped, .ok ⟨optional.scope, projection, restriction, optional.parameters⟩)

/-- Prepares a root: runs the recipe, if there is one, and compiles the request. -/
def prepare (catalog : Catalog) (root : Entity) (r : Request) (recipe : Option Recipe)
    (label : String) : Journal × Except Failure Prepared :=
  let s := Scope.new catalog root label
  match recipe with
  | none =>
    let (dropped, outcome) := restrict s r none []
    (⟨dropped, []⟩, outcome)
  | some recipe =>
    match RunState.run s recipe with
    | (st, some e) => (⟨[], [⟨label, root.name, st.results, none⟩]⟩, .error e)
    | (st, none) =>
      let projection := recipe.projection? st
      let (dropped, outcome) :=
        restrict (st.scope.withFields projection) r projection st.conditions
      (⟨dropped, [⟨label, root.name, st.results, some st.fields⟩]⟩, outcome)

end PageQuery
