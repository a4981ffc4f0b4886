import PageQuery.Filter.Binding
import PageQuery.Filter.Operand
import PageQuery.Filter.Pattern
import PageQuery.Path.Scope
/-!
# Predicates: criteria on terms

A criterion on a term becomes an expression and the operands it binds.  On a collection, a list of
literals is a membership test: the expression keeps the rows that hold any of the values, and the
number of different values is handed on, so that a count over the group can ask for all of them.
-/
namespace PageQuery

/-- A predicate's expression, and for a membership test the number of values tested for. -/
structure Built where
  expr : Expr
  wanted : Option Nat

namespace Built

def plain (e : Expr) : Built := ⟨e, none⟩

end Built

/-! ## Structured criteria -/

def NumericTest.build (test : NumericTest) (e : Expr) (t : ValueType) : Binding Expr :=
  match test with
  | .equal l => do
    let v ← Binding.operand (l.toNumber t)
    pure (.compare .eq e (.value v))
  | .below l => do
    let v ← Binding.operand (l.toNumber t)
    pure (.compare .lt e (.value v))
  | .above l => do
    let v ← Binding.operand (l.toNumber t)
    pure (.compare .gt e (.value v))
  | .between low high => do
    let v ← Binding.operand (low.toNumber t)
    let w ← Binding.operand (high.toNumber t)
    pure (.between e (.value v) (.value w))

def variantsOf (e : EnumType) : List Literal → Except CriterionFault (List String)
  | [] => .ok []
  | l :: ls => do
    let v ← l.toVariant e
    let vs ← variantsOf e ls
    .ok (v :: vs)

/-- A test for variants: an equality for one, a list for several. -/
def buildVariants (candidates : List Literal) (e : Expr) (t : ValueType) : Binding Expr :=
  match t with
  | .enumerated enum => do
    let vs ← Binding.ofExcept (variantsOf enum candidates)
    match Value.distinct (vs.map .text) with
    | [] => Binding.fault .noCandidates
    | [v] => do
      let v ← Binding.operand (.ok v)
      pure (.compare .eq e (.value v))
    | vs => do
      let vs ← Binding.operandList vs
      pure (.inValues e vs)
  | t => Binding.fault (.typeNotEnum t)

def buildTruth (b : Bool) (e : Expr) (t : ValueType) : Binding Expr :=
  if t = .boolean then do
    let v ← Binding.operand (.ok (.boolean b))
    pure (.compare .eq e (.value v))
  else Binding.fault (.typeNotBoolean t)

def ValueType.isTextual : ValueType → Bool
  | .text => true
  | .enumerated _ => true
  | _ => false

/-- A text match in lower case: an equality, or a LIKE whose pattern is bound. -/
def TextMatch.build (m : TextMatch) (e : Expr) (t : ValueType) : Binding Expr :=
  if t.isTextual then
    match m.like? with
    | none => do
      let v ← Binding.operand (.ok (.text (lowercase m.pattern)))
      pure (.compare .eq (.call .lower e) (.value v))
    | some pattern => do
      let _ ← Binding.operand (.ok (.text pattern))
      pure (.like (.call .lower e) pattern)
  else Binding.fault (.typeNotText t)

/-! ## Plain literals -/

/-- A plain literal means the structured criterion of the declared type. -/
def buildLiteral (l : Literal) (e : Expr) (t : ValueType) : Binding Expr :=
  match t, l with
  | .enumerated _, .text _ | .enumerated _, .integer _ => buildVariants [l] e t
  | .integer, .integer _ | .integer, .float _ | .integer, .text _
  | .float, .integer _ | .float, .float _ | .float, .text _ => (NumericTest.equal l).build e t
  | .boolean, .boolean _ | .boolean, .integer _ | .boolean, .text _ => do
    let b ← Binding.ofExcept l.toTruth
    buildTruth b e t
  | .text, .text s => (TextMatch.mk s .exact).build e t
  | t, l => Binding.fault (.unsupported t l)

/-! ## Membership -/

def elementsOf (t : ValueType) : List Criterion → Except CriterionFault (List Value)
  | [] => .ok []
  | .value l :: cs => do
    let v ← l.toElement t
    let vs ← elementsOf t cs
    .ok (v :: vs)
  | c :: _ => .error (.needsLiterals c.kind)

def buildMembership (c : Criterion) (e : Expr) (t : ValueType) : Binding Built :=
  match c with
  | .alternatives items => do
    let vs ← Binding.ofExcept (elementsOf t items)
    let vs ← Binding.operandList (Value.distinct vs)
    pure ⟨.inValues e vs, some vs.length⟩
  | c => Binding.fault (.needsList c.kind)

/-! ## All criteria -/

/-- Any of the elements that could be built; one alone stands for itself. -/
def anyBuilt (operands : List Value) (es : List Expr) : Binding Built :=
  match Expr.disjunction es with
  | some e => ⟨operands, .ok (Built.plain e)⟩
  | none => ⟨operands, .error .noElement⟩

mutual

def Criterion.build (t : Term) : Criterion → Binding Built
  | .negation inner => do
    let b ← inner.build t
    pure (Built.plain (.not b.expr))
  | .null => pure (Built.plain (.isNull t.expr))
  | .alternatives items =>
    if t.isCollection then buildMembership (.alternatives items) t.expr t.type
    else anyBuilt (Criterion.buildAll t items).1 (Criterion.buildAll t items).2
  | .value l =>
    if t.isCollection then buildMembership (.value l) t.expr t.type
    else do let e ← buildLiteral l t.expr t.type; pure (Built.plain e)
  | .numeric test =>
    if t.isCollection then buildMembership (.numeric test) t.expr t.type
    else do let e ← test.build t.expr t.type; pure (Built.plain e)
  | .enumerated candidates =>
    if t.isCollection then buildMembership (.enumerated candidates) t.expr t.type
    else do let e ← buildVariants candidates t.expr t.type; pure (Built.plain e)
  | .boolean b =>
    if t.isCollection then buildMembership (.boolean b) t.expr t.type
    else do let e ← buildTruth b t.expr t.type; pure (Built.plain e)
  | .textMatch m =>
    if t.isCollection then buildMembership (.textMatch m) t.expr t.type
    else do let e ← m.build t.expr t.type; pure (Built.plain e)

/-- The operands that all elements bind, and the expressions of those without a fault. -/
def Criterion.buildAll (t : Term) : List Criterion → List Value × List Expr
  | [] => ([], [])
  | c :: cs =>
    let b := c.build t
    let (vs, es) := Criterion.buildAll t cs
    match b.outcome with
    | .ok x => (b.operands ++ vs, x.expr :: es)
    | .error _ => (b.operands ++ vs, es)

end
end PageQuery
