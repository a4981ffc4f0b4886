import PageQuery.Path.Scope
/-!
# Projections

What a query puts out: either the whole entity, or named fields.  A projection is described by a
recipe, steps that read paths, aggregate them, or restrict the query.  A recipe is run once for each
query root, so its steps mean the same under any label; a builder may choose its recipe by the
label.

A builder that looks at what its steps come to takes, at one root and under one label, one line of
steps, the failed ones among them that it goes on after: that line is its recipe there.
-/
namespace PageQuery

/-- Named terms, in order; naming a field again replaces its term in place. -/
abbrev Projection := List (String × Term)

namespace Projection

def put (p : Projection) (name : String) (t : Term) : Projection :=
  if p.any (fun f => f.1 == name) then p.map fun f => if f.1 = name then (name, t) else f
  else p ++ [(name, t)]

def hasAggregates (p : Projection) : Bool := p.any fun f => f.2.isAggregate

end Projection

inductive Measure where
  | path
  | count
  | sum
  | avg
  | min
  | max
  deriving DecidableEq, Repr

/-! ## Conditions of a recipe -/

inductive Operator where
  | lower
  | not
  | isNull
  | isNotNull
  | inValues (values : List Value)
  | like (pattern : String)
  deriving DecidableEq, Repr

def Operator.apply (e : Expr) : Operator → Expr
  | .lower => .call .lower e
  | .not => .not e
  | .isNull => .isNull e
  | .isNotNull => .isNotNull e
  | .inValues vs => .inValues e vs
  | .like pattern => .like e pattern

inductive Connective where
  | compare (op : Comparison)
  | and
  | or
  deriving DecidableEq, Repr

def Connective.apply (left right : Expr) : Connective → Expr
  | .compare op => .compare op left right
  | .and => .and left right
  | .or => .or left right

/-- A condition over what a recipe has at hand: the terms that it made so far, counted from the
first, the identity and the columns of its root, and values. -/
inductive Formula where
  | term (i : Nat)
  | identity
  | column (name : String)
  | value (v : Value)
  | apply (op : Operator) (f : Formula)
  | combine (op : Connective) (left right : Formula)
  | between (f low high : Formula)
  deriving Repr

/-- The expression of a formula; past the terms made there is only the identity. -/
def Formula.expr (s : Scope) (terms : List Term) : Formula → Expr
  | .term i => (terms[i]?.getD s.identity).expr
  | .identity => s.identity.expr
  | .column name => s.rootColumn name
  | .value v => .value v
  | .apply op f => op.apply (f.expr s terms)
  | .combine op f g => op.apply (f.expr s terms) (g.expr s terms)
  | .between f low high => .between (f.expr s terms) (low.expr s terms) (high.expr s terms)

/-- A step of a recipe; those that make a term may name a field for it.  A recipe ends where a
measure fails, but goes on after an attempt at one. -/
inductive Step where
  | measure (m : Measure) (field : Option String) (path : String)
  | attempt (m : Measure) (path : String)
  | identity (field : Option String)
  | constant (field : Option String) (v : Value) (type : ValueType) (origin : Origin)
  | condition (f : Formula)
  deriving Repr

/-- Steps, and whether they end in the whole entity or in the fields they named. -/
structure Recipe where
  steps : List Step
  whole : Bool

/-- The recipes of a builder, by the label of the root. -/
abbrev Builder := String → Recipe

def Recipe.wholeEntity : Recipe := ⟨[], true⟩

/-! ## Running a recipe -/

inductive StepResult where
  | term (t : Term)
  | condition (e : Expr)

def StepResult.term? : StepResult → Option Term
  | .term t => some t
  | .condition _ => none

namespace Scope

/-- A function over the rows of a path, read in a subquery about the root row: whatever else the
query joins, the value is the root row's own. -/
def perIdentity (s : Scope) (f : Function) (type : Option ValueType) (path : String) :
    Scope × Except Failure Term :=
  match s.detached.readTarget path with
  | (_, .error e) => (s.opened, .error e)
  | (inner, .ok t) =>
    (s.opened,
      .ok ⟨.scalar (inner.correlated (.call f t.expr) s.identity.expr [] [] []), type.getD t.type,
        .derived⟩)

/-- A function over the rows of a path, read in the query itself. -/
def overGroup (s : Scope) (f : Function) (type : Option ValueType) (path : String) :
    Scope × Except Failure Term :=
  match s.readTarget path with
  | (s, .error e) => (s, .error e)
  | (s, .ok t) => (s, .ok ⟨.call f t.expr, type.getD t.type, .aggregate⟩)

def measure (s : Scope) (m : Measure) (path : String) : Scope × Except Failure Term :=
  match m with
  | .path => s.readTarget path
  | .count => s.overGroup .countDistinct (some .integer) path
  | .sum => s.perIdentity .sum none path
  | .avg => s.perIdentity .avg (some .float) path
  | .min => s.overGroup .min none path
  | .max => s.overGroup .max none path

end Scope

/-- Where a run stands: the scope, the fields and conditions so far, and what each step did. -/
structure RunState where
  scope : Scope
  fields : Projection
  conditions : List Expr
  results : List StepResult

namespace RunState

def withTerm (st : RunState) (s : Scope) (field : Option String) (t : Term) : RunState :=
  ⟨s, match field with
      | some name => st.fields.put name t
      | none => st.fields,
    st.conditions, st.results ++ [.term t]⟩

def withCondition (st : RunState) (e : Expr) : RunState :=
  { st with conditions := st.conditions ++ [e], results := st.results ++ [.condition e] }

def terms (st : RunState) : List Term := st.results.filterMap StepResult.term?

@[simp] theorem terms_withTerm (st : RunState) (s : Scope) (field : Option String) (t : Term) :
    (st.withTerm s field t).terms = st.terms ++ [t] := by
  simp [terms, withTerm, StepResult.term?]

@[simp] theorem terms_withCondition (st : RunState) (e : Expr) :
    (st.withCondition e).terms = st.terms := by
  simp [terms, withCondition, StepResult.term?]

def read (st : RunState) (m : Measure) (field : Option String) (path : String) :
    RunState × Option Failure :=
  match st.scope.measure m path with
  | (s, .ok t) => (st.withTerm s field t, none)
  | (s, .error f) => ({ st with scope := s }, some f)

def step (st : RunState) : Step → RunState × Option Failure
  | .measure m field path => st.read m field path
  | .attempt m path => ((st.read m none path).1, none)
  | .identity field => (st.withTerm st.scope field st.scope.identity, none)
  | .constant field v type origin => (st.withTerm st.scope field ⟨.value v, type, origin⟩, none)
  | .condition f => (st.withCondition (f.expr st.scope st.terms), none)

def steps (st : RunState) : List Step → RunState × Option Failure
  | [] => (st, none)
  | x :: xs =>
    match st.step x with
    | (st, none) => st.steps xs
    | (st, some f) => (st, some f)

def run (s : Scope) (r : Recipe) : RunState × Option Failure :=
  (⟨s, [], [], []⟩ : RunState).steps r.steps

end RunState

/-- The projection that a finished run ends in; one without fields is the whole entity. -/
def Recipe.projection? (r : Recipe) (st : RunState) : Option Projection :=
  if r.whole || st.fields.isEmpty then none else some st.fields

end PageQuery
