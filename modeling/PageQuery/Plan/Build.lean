import PageQuery.Plan.Plan
import PageQuery.Plan.Prepare
/-!
# Building the plans of a page

The rows of a page and their total are two statements about the same root.  The rows are read
under the label `e`.  The total counts identities under `c`; when anything is restricted, they are
looked for in a subquery that repeats the restriction, copied under `e` where it needs no joins and
the backend allows it, else prepared anew under `s`.

A to-many join makes several rows of one entity.  They are put together again by grouping, when
groups are restricted or anything is aggregated, and by DISTINCT otherwise.
-/
namespace PageQuery

def dataLabel : String := "e"
def countLabel : String := "c"
def subqueryLabel : String := "s"

/-- The limit of a statement that has an offset but no limit. -/
def unboundedLimit : UInt64 := 9223372036854775807

/-- An expression of the output, and whether a grouping must list it. -/
structure Selected where
  expr : Expr
  grouped : Bool

structure OrderTerm where
  term : Term
  ascending : Bool

/-! ## Output -/

/-- The columns of the root, or the fields of the projection: items, output columns, and what a
grouping must list. -/
def outputOf (s : Scope) (projection : Option Projection) :
    List Item × List OutputColumn × List Selected :=
  match projection with
  | none =>
    let cols := s.root.columns
    (cols.map fun c => ⟨s.rootColumn c.2, some c.1.name⟩,
      cols.map fun c => ⟨c.1.name, c.1.type⟩,
      cols.map fun c => ⟨s.rootColumn c.2, true⟩)
  | some fields =>
    (fields.map fun f => ⟨f.2.expr, some f.1⟩,
      fields.map fun f => ⟨f.1, f.2.type⟩,
      fields.map fun f => ⟨f.2.expr, f.2.needsGrouping⟩)

/-! ## Ordering -/

/-- A collection sorts by its least value upwards and by its greatest downwards. -/
def collapse (t : Term) (ascending : Bool) : Term :=
  if t.isCollection then ⟨.call (if ascending then .min else .max) t.expr, t.type, .aggregate⟩
  else t

def resolveOrdering (s : Scope) : List Ordering → Scope × Except Failure (List OrderTerm)
  | [] => (s, .ok [])
  | o :: os =>
    match s.readTarget o.path with
    | (s, .error f) => (s, .error f)
    | (s, .ok t) =>
      let (s, rest) := resolveOrdering s os
      (s, rest.map (⟨collapse t o.ascending, o.ascending⟩ :: ·))

def checkOrdering (s : Scope) : List Ordering → Except Failure Unit
  | [] => .ok ()
  | o :: os => do
    if (s.field? o.path).isNone then
      let _ ← s.terminal o.path
    checkOrdering s os

/-- A single row needs no order: its ordering is only checked. -/
def orderTerms (s : Scope) (r : Request) : Scope × Except Failure (List OrderTerm) :=
  if r.limit = some 1 then (s, (checkOrdering s r.ordering).map fun _ => [])
  else resolveOrdering s r.ordering

/-! ## Grouping -/

/-- The grouping of the rows: by the identity and then by all that is put out or sorted by, when
groups are restricted or anything is aggregated. -/
def dataGrouping (identity : Expr) (restriction : Restriction) (projection : Option Projection)
    (selected : List Selected) (orders : List OrderTerm) : List Expr :=
  let aggregated :=
    (projection.getD []).hasAggregates || orders.any fun o => o.term.isAggregate
  if !restriction.having.isEmpty || aggregated then
    let listed := (selected.filter (·.grouped)).map Selected.expr ++
      (orders.filter (·.term.needsGrouping)).map (·.term.expr)
    listed.foldl addGrouping (addGrouping restriction.groupBy identity)
  else restriction.groupBy

/-- Items for the sort keys that are not put out already, named by their place among the keys. -/
def extraItems (selected : List Selected) : Nat → List OrderTerm → List Item
  | _, [] => []
  | i, o :: os =>
    if selected.any (fun x => decide (x.expr = o.term.expr)) then extraItems selected (i + 1) os
    else ⟨o.term.expr, some ("order_" ++ toString i)⟩ :: extraItems selected (i + 1) os

/-! ## The two plans -/

def dataPlan (r : Request) (p : Prepared) : Except Failure Plan :=
  let (items, columns, selected) := outputOf p.scope p.projection
  match orderTerms p.scope r with
  | (_, .error f) => .error f
  | (s, .ok orders) =>
    let groupBy := dataGrouping s.identity.expr p.restriction p.projection selected orders
    let toMany := s.hasToManyJoins
    let distinct := toMany && groupBy.isEmpty
    let offset := if toMany || r.offset != 0 then some r.offset else none
    let limit := match r.limit with
      | some n => some n
      | none => offset.map fun _ => unboundedLimit
    .ok
      { statement :=
          { distinct := distinct
            items := items ++ (if distinct then extraItems selected 0 orders else [])
            table := s.root.table
            label := dataLabel
            joins := s.joinList
            conditions := p.restriction.conditions
            groupBy := groupBy
            having := p.restriction.having
            orderBy := orders.map fun o => ⟨o.term.expr, o.ascending⟩
            limit := limit
            offset := offset }
        columns := columns
        parameters := p.parameters
        profile :=
          { ordered := !orders.isEmpty
            distinct := distinct
            limit := limit
            offset := offset
            joined := s.hasJoins
            groupings := groupBy.length
            restrictsGroups := !p.restriction.having.isEmpty } }

def identitySubquery (root : Entity) (label : String) (joins : List Join) (conditions : List Expr)
    (r : Restriction) : Subquery :=
  .select (Expr.col label root.identityColumn) root.table label joins conditions r.groupBy r.having

/-- The condition of the count: its identity is among those that the restriction leaves. -/
def countCondition (root : Entity) (idiom : CountIdiom) (label : String) (joins : List Join)
    (r : Restriction) : Expr :=
  let outer := Expr.col countLabel root.identityColumn
  match idiom with
  | .inQuery => .inQuery outer (identitySubquery root label joins r.conditions r)
  | .existsQuery =>
    .nonempty (identitySubquery root label joins
      (r.conditions ++ [Expr.eq (Expr.col label root.identityColumn) outer]) r)

def countStatement (root : Entity) (conditions : List Expr) : Statement :=
  { distinct := false
    items := [⟨.call .count (Expr.col countLabel root.identityColumn), none⟩]
    table := root.table
    label := countLabel
    joins := []
    conditions := conditions
    groupBy := []
    having := []
    orderBy := []
    limit := none
    offset := none }

/-- The profile of a count: of all that it could tell, only whether groups are restricted. -/
def countProfile (restrictsGroups : Bool) : Profile :=
  ⟨false, false, none, none, false, 0, restrictsGroups⟩

def countPlanOver (root : Entity) (caps : Capabilities) (label : String) (joins : List Join)
    (r : Restriction) (parameters : List Parameter) : Plan :=
  { statement := countStatement root [countCondition root caps.countIdiom label joins r]
    columns := []
    parameters := parameters
    profile := countProfile !r.having.isEmpty }

/-- The plan of the total: of every identity when nothing is restricted, else of those left by the
restriction of the rows, copied or prepared anew. -/
def countPlan (catalog : Catalog) (root : Entity) (caps : Capabilities) (r : Request)
    (recipe : Option Recipe) (data : Plan) (p : Prepared) : Journal × Except Failure Plan :=
  if p.restriction.isEmpty then
    (.empty, .ok
      { statement := countStatement root [], columns := [], parameters := [],
        profile := countProfile false })
  else if caps.copiesRestriction && !data.profile.joined then
    (.empty, .ok (countPlanOver root caps dataLabel [] p.restriction p.parameters))
  else
    let (journal, again) := prepare catalog root r recipe subqueryLabel
    (journal, again.map fun q =>
      countPlanOver root caps subqueryLabel q.scope.joinList q.restriction q.parameters)

/-- Builds the plans of a page, with the recipes that a builder has for their labels.  The builder
is `none` for the whole entity; when a projection is required, its recipe must end in one. -/
def PagePlan.buildFor (catalog : Catalog) (root : Entity) (caps : Capabilities) (r : Request)
    (wantCount : Bool) (builder : Option Builder) (requireProjection : Bool) :
    Journal × Except Failure PagePlan :=
  match prepare catalog root r (builder.map (· dataLabel)) dataLabel with
  | (journal, .error f) => (journal, .error f)
  | (journal, .ok p) =>
    if requireProjection && p.projection.isNone then (journal, .error .projectionRequired)
    else
      match dataPlan r p with
      | .error f => (journal, .error f)
      | .ok data =>
        if wantCount then
          let (more, count) := countPlan catalog root caps r (builder.map (· subqueryLabel)) data p
          (journal.append more, count.map fun c => ⟨data, some c⟩)
        else (journal, .ok ⟨data, none⟩)

def Recipe.always (r : Recipe) : Builder := fun _ => r

@[simp] theorem Recipe.map_always (recipe : Option Recipe) (label : String) :
    (recipe.map always).map (· label) = recipe := by
  cases recipe <;> rfl

def PagePlan.build (catalog : Catalog) (root : Entity) (caps : Capabilities) (r : Request)
    (wantCount : Bool) (recipe : Option Recipe) (requireProjection : Bool) :
    Journal × Except Failure PagePlan :=
  buildFor catalog root caps r wantCount (recipe.map Recipe.always) requireProjection

end PageQuery
