import PageQuery.Proofs.Growth
import PageQuery.Proofs.Labels
/-!
# Preparing the same request under another label

Nothing that a criterion, a recipe or a request does looks at a label: it passes labels on.  So preparing a root under
another label gives the same fields, conditions and joins under other labels, and the same parameters, failures
included.
-/
namespace PageQuery

/-! ## Criteria -/

namespace Binding
variable {α β γ : Type}

def mapped (g : α → β) (x : Binding α) : Binding β := ⟨x.operands, x.outcome.map g⟩

theorem mapped_pure (g : α → β) (a : α) : (Pure.pure a : Binding α).mapped g = Pure.pure (g a) := rfl

theorem mapped_fault (g : α → β) (e : CriterionFault) : (fault e : Binding α).mapped g = fault e := rfl

theorem mapped_bind (g : β → γ) (x : Binding α) (k : α → Binding β) :
    (x >>= k).mapped g = x >>= fun a => (k a).mapped g := by
  obtain ⟨vs, e | a⟩ := x
  · rfl
  · rfl

end Binding

def Built.relabel (f : String → String) (b : Built) : Built := ⟨b.expr.relabel f, b.wanted⟩

section
variable (f : String → String)

theorem NumericTest.build_relabel (test : NumericTest) (e : Expr) (t : ValueType) :
    test.build (e.relabel f) t = (test.build e t).mapped (Expr.relabel f) := by
  cases test <;> simp only [NumericTest.build, Binding.mapped_bind, Binding.mapped_pure, Expr.relabel]

theorem buildVariants_relabel (candidates : List Literal) (e : Expr) (t : ValueType) :
    buildVariants candidates (e.relabel f) t = (buildVariants candidates e t).mapped (Expr.relabel f) := by
  unfold buildVariants
  cases t with
  | enumerated enum =>
    simp only [Binding.mapped_bind]
    congr 1
    funext vs
    split
    · rfl
    · simp only [Binding.mapped_bind, Binding.mapped_pure, Expr.relabel]
    · simp only [Binding.mapped_bind, Binding.mapped_pure, Expr.relabel]
  | integer | float | boolean | text | reference => rfl

theorem buildTruth_relabel (b : Bool) (e : Expr) (t : ValueType) :
    buildTruth b (e.relabel f) t = (buildTruth b e t).mapped (Expr.relabel f) := by
  unfold buildTruth
  split
  · simp only [Binding.mapped_bind, Binding.mapped_pure, Expr.relabel]
  · rfl

theorem TextMatch.build_relabel (m : TextMatch) (e : Expr) (t : ValueType) :
    m.build (e.relabel f) t = (m.build e t).mapped (Expr.relabel f) := by
  unfold TextMatch.build
  split
  · cases m.like? <;> simp only [Binding.mapped_bind, Binding.mapped_pure, Expr.relabel]
  · rfl

theorem buildLiteral_relabel (l : Literal) (e : Expr) (t : ValueType) :
    buildLiteral l (e.relabel f) t = (buildLiteral l e t).mapped (Expr.relabel f) := by
  unfold buildLiteral
  split
  all_goals first
    | rw [buildVariants_relabel]
    | rw [NumericTest.build_relabel]
    | rw [TextMatch.build_relabel]
    | simp only [Binding.mapped_bind, buildTruth_relabel]
    | rw [Binding.mapped_fault]

theorem buildMembership_relabel (c : Criterion) (e : Expr) (t : ValueType) :
    buildMembership c (e.relabel f) t = (buildMembership c e t).mapped (Built.relabel f) := by
  cases c <;> simp only [buildMembership, Binding.mapped_bind, Binding.mapped_pure, Binding.mapped_fault, Built.relabel,
    Expr.relabel]

theorem Expr.disjunction_map {g : Expr → Expr} (hg : ∀ a b, g (.or a b) = .or (g a) (g b)) (es : List Expr) :
    Expr.disjunction (es.map g) = (Expr.disjunction es).map g := by
  cases es with
  | nil => rfl
  | cons e es =>
    simp only [List.map_cons, Expr.disjunction, Option.map_some, Option.some.injEq]
    induction es generalizing e with
    | nil => rfl
    | cons e' es ih =>
      simp only [List.map_cons, List.foldl_cons]
      rw [← ih, hg]

theorem anyBuilt_relabel (vs : List Value) (es : List Expr) :
    anyBuilt vs (es.map (Expr.relabel f)) = (anyBuilt vs es).mapped (Built.relabel f) := by
  have hor : ∀ a b, (Expr.or a b).relabel f = .or (a.relabel f) (b.relabel f) := fun a b => by simp only [Expr.relabel]
  unfold anyBuilt
  rw [Expr.disjunction_map hor]
  cases Expr.disjunction es <;> rfl

theorem onTerm_relabel (t : Term) (c : Criterion) {x y : Binding Expr} (h : x = y.mapped (Expr.relabel f)) :
    (if (t.relabel f).isCollection then buildMembership c (t.relabel f).expr (t.relabel f).type
      else do let e ← x; pure (Built.plain e)) =
    (if t.isCollection then buildMembership c t.expr t.type
      else do let e ← y; pure (Built.plain e)).mapped (Built.relabel f) := by
  have hsame : (t.relabel f).isCollection = t.isCollection := rfl
  rw [hsame, h]
  split
  · exact buildMembership_relabel f c t.expr t.type
  · obtain ⟨vs, e | a⟩ := y
    · rfl
    · rfl

mutual

/-- **What a criterion builds on a relabelled term** is what it builds on the term, relabelled. -/
theorem Criterion.build_relabel (t : Term) : ∀ c : Criterion,
    c.build (t.relabel f) = (c.build t).mapped (Built.relabel f)
  | .negation inner => by
    simp only [Criterion.build, Criterion.build_relabel t inner]
    obtain ⟨vs, e | b⟩ := inner.build t
    · rfl
    · simp only [Binding.mapped_bind, Binding.mapped_pure, Built.relabel, Built.plain, Expr.relabel]
      rfl
  | .null => by
    simp only [Criterion.build, Binding.mapped_pure]
    simp only [Built.plain, Built.relabel, Term.relabel, Expr.relabel]
  | .alternatives items => by
    have hsame : (t.relabel f).isCollection = t.isCollection := rfl
    simp only [Criterion.build, Criterion.buildAll_relabel t items, hsame]
    split
    · exact buildMembership_relabel f _ t.expr t.type
    · exact anyBuilt_relabel f _ _
  | .value l => by
    simp only [Criterion.build]
    exact onTerm_relabel f t _ (buildLiteral_relabel f l t.expr t.type)
  | .numeric test => by
    simp only [Criterion.build]
    exact onTerm_relabel f t _ (NumericTest.build_relabel f test t.expr t.type)
  | .enumerated candidates => by
    simp only [Criterion.build]
    exact onTerm_relabel f t _ (buildVariants_relabel f candidates t.expr t.type)
  | .boolean b => by
    simp only [Criterion.build]
    exact onTerm_relabel f t _ (buildTruth_relabel f b t.expr t.type)
  | .textMatch m => by
    simp only [Criterion.build]
    exact onTerm_relabel f t _ (TextMatch.build_relabel f m t.expr t.type)

theorem Criterion.buildAll_relabel (t : Term) : ∀ cs : List Criterion,
    Criterion.buildAll (t.relabel f) cs =
      ((Criterion.buildAll t cs).1, (Criterion.buildAll t cs).2.map (Expr.relabel f))
  | [] => by simp [Criterion.buildAll]
  | c :: cs => by
    simp only [Criterion.buildAll, Criterion.build_relabel t c, Criterion.buildAll_relabel t cs, Binding.mapped]
    cases (c.build t).outcome with
    | error e => simp [Except.map]
    | ok x => simp [Except.map, Built.relabel]

end

end

/-! ## Recipes -/

theorem Projection.put_relabel (f : String → String) (p : Projection) (name : String) (t : Term) :
    Projection.put (p.relabel f) name (t.relabel f) = (Projection.put p name t).relabel f := by
  have hany : (p.relabel f).any (fun x => x.1 == name) = p.any fun x => x.1 == name := by
    simp [Projection.relabel, Function.comp_def]
  unfold Projection.put
  rw [hany]
  split
  · simp only [Projection.relabel, List.map_map]
    refine List.map_congr_left fun x _ => ?_
    simp only [Function.comp_apply]
    split <;> rfl
  · simp [Projection.relabel]

def StepResult.relabel (f : String → String) : StepResult → StepResult
  | .term t => .term (t.relabel f)
  | .condition e => .condition (e.relabel f)

def RunState.relabel (f : String → String) (st : RunState) : RunState :=
  ⟨st.scope.relabel f, Projection.relabel f st.fields, st.conditions.map (Expr.relabel f),
    st.results.map (StepResult.relabel f)⟩

namespace Scope
variable {f : String → String} {s : Scope}

theorem detached_eq (s : Scope) :
    s.detached = s.base.relabel (rebase s.label (s.label ++ "_sub" ++ toString s.subqueries)) := by
  rw [base, ← new_relabel, rebase_self]
  rfl

theorem perIdentity_relabel (hf : KeepsBehind f s.label) (g : Function) (type : Option ValueType) (path : String) :
    (s.relabel f).perIdentity g type path = relabelFound f (s.perIdentity g type path) := by
  unfold perIdentity
  rw [detached_relabel hf, readTarget_relabel (keepsBehind_detached hf), identity_relabel]
  rcases s.detached.readTarget path with ⟨inner, e | t⟩
  · rfl
  · have hq := correlated_relabel (f := f) (s := inner) (.call g t.expr) s.identity.expr [] [] []
    simp only [List.map_nil, Expr.relabel] at hq
    simp only [relabelFound, Except.map, Term.relabel, Expr.relabel, opened_relabel]
    rw [hq]

theorem overGroup_relabel (hf : KeepsBehind f s.label) (g : Function) (type : Option ValueType) (path : String) :
    (s.relabel f).overGroup g type path = relabelFound f (s.overGroup g type path) := by
  unfold overGroup
  rw [readTarget_relabel hf]
  rcases s.readTarget path with ⟨s', e | t⟩
  · rfl
  · simp only [relabelFound, Except.map, Term.relabel, Expr.relabel]

theorem measure_relabel (hf : KeepsBehind f s.label) (m : Measure) (path : String) :
    (s.relabel f).measure m path = relabelFound f (s.measure m path) := by
  cases m with
  | path => exact readTarget_relabel hf path
  | count | min | max => exact overGroup_relabel hf _ _ path
  | sum | avg => exact perIdentity_relabel hf _ _ path

end Scope

/-! ## Conditions of a recipe -/

theorem Operator.apply_relabel (f : String → String) (e : Expr) (op : Operator) :
    op.apply (e.relabel f) = (op.apply e).relabel f := by
  cases op <;> simp only [Operator.apply, Expr.relabel]

theorem Connective.apply_relabel (f : String → String) (a b : Expr) (op : Connective) :
    op.apply (a.relabel f) (b.relabel f) = (op.apply a b).relabel f := by
  cases op <;> simp only [Connective.apply, Expr.relabel]

/-- **A condition written once means the same under other labels**: its expression there is the relabelled one. -/
theorem Formula.expr_relabel (g : String → String) (s : Scope) (terms : List Term) : ∀ f : Formula,
    f.expr (s.relabel g) (terms.map (Term.relabel g)) = (f.expr s terms).relabel g
  | .term i => by
    simp only [Formula.expr, List.getElem?_map, Scope.identity_relabel]
    cases terms[i]? <;> rfl
  | .identity => by simp only [Formula.expr, Scope.identity_relabel, Term.relabel]
  | .column name => by simp only [Formula.expr, Expr.relabel, Scope.rootColumn, Expr.col, Column.relabel, Scope.relabel]
  | .value v => by simp only [Formula.expr, Expr.relabel]
  | .apply op f => by simp only [Formula.expr, Formula.expr_relabel g s terms f, Operator.apply_relabel]
  | .combine op a b => by
    simp only [Formula.expr, Formula.expr_relabel g s terms a, Formula.expr_relabel g s terms b,
      Connective.apply_relabel]
  | .between f low high => by
    simp only [Formula.expr, Formula.expr_relabel g s terms f, Formula.expr_relabel g s terms low,
      Formula.expr_relabel g s terms high, Expr.relabel]

namespace RunState
variable {f : String → String}

theorem withTerm_relabel (st : RunState) (s : Scope) (field : Option String) (t : Term) :
    (st.relabel f).withTerm (s.relabel f) field (t.relabel f) = (st.withTerm s field t).relabel f := by
  cases field with
  | none => simp [withTerm, relabel, StepResult.relabel]
  | some name => simp [withTerm, relabel, StepResult.relabel, Projection.put_relabel]

theorem withCondition_relabel (st : RunState) (e : Expr) :
    (st.relabel f).withCondition (e.relabel f) = (st.withCondition e).relabel f := by
  simp [withCondition, relabel, StepResult.relabel]

theorem terms_relabel (st : RunState) : (st.relabel f).terms = st.terms.map (Term.relabel f) := by
  have hterm : ∀ x : StepResult, (x.relabel f).term? = x.term?.map (Term.relabel f) := fun x => by cases x <;> rfl
  simp only [terms, relabel, List.filterMap_map, Function.comp_def, hterm, List.map_filterMap]

theorem read_relabel {st : RunState} (hf : KeepsBehind f st.scope.label) (m : Measure) (field : Option String)
    (path : String) : (st.relabel f).read m field path = Prod.map (relabel f) id (st.read m field path) := by
  have hscope : (st.relabel f).scope = st.scope.relabel f := rfl
  simp only [read, hscope, Scope.measure_relabel hf]
  rcases st.scope.measure m path with ⟨s, e | t⟩
  · rfl
  · simp only [Scope.relabelFound, Except.map, withTerm_relabel, Prod.map, id]

theorem step_relabel {st : RunState} (hf : KeepsBehind f st.scope.label) (x : Step) :
    (st.relabel f).step x = Prod.map (relabel f) id (st.step x) := by
  have hscope : (st.relabel f).scope = st.scope.relabel f := rfl
  cases x with
  | measure m field path => exact read_relabel hf m field path
  | attempt m path => simp only [step, read_relabel hf, Prod.map, id]
  | identity field =>
    simp only [step, hscope, Scope.identity_relabel, withTerm_relabel, Prod.map, id]
  | constant field v type origin =>
    have hv : (⟨.value v, type, origin⟩ : Term) = Term.relabel f ⟨.value v, type, origin⟩ := by
      simp only [Term.relabel, Expr.relabel]
    simp only [step, hscope, Prod.map, id]
    rw [hv, withTerm_relabel, ← hv]
  | condition c => simp only [step, hscope, terms_relabel, Formula.expr_relabel, withCondition_relabel, Prod.map, id]

theorem steps_relabel (xs : List Step) : ∀ {st : RunState}, KeepsBehind f st.scope.label →
    (st.relabel f).steps xs = Prod.map (relabel f) id (st.steps xs) := by
  induction xs with
  | nil => exact fun _ => rfl
  | cons x xs ih =>
    intro st hf
    have hgrows := grows_step st x
    simp only [steps, step_relabel hf]
    generalize st.step x = y at hgrows
    obtain ⟨st', _ | e⟩ := y
    · have hlabel : st'.scope.label = st.scope.label := hgrows.label
      exact ih (hlabel ▸ hf)
    · rfl

theorem run_relabel {s : Scope} (hf : KeepsBehind f s.label) (r : Recipe) :
    run (s.relabel f) r = Prod.map (relabel f) id (run s r) :=
  @steps_relabel f r.steps ⟨s, [], [], []⟩ hf

end RunState

theorem Recipe.projection?_relabel (f : String → String) (r : Recipe) (st : RunState) :
    r.projection? (st.relabel f) = (r.projection? st).map (Projection.relabel f) := by
  have hempty : (st.relabel f).fields.isEmpty = st.fields.isEmpty := List.isEmpty_map
  unfold Recipe.projection?
  rw [hempty]
  split <;> rfl

/-! ## Compiling -/

def Predicate.map (g : Expr → Expr) (p : Predicate) : Predicate :=
  { p with expr := g p.expr, membership := p.membership.map fun m => ⟨g m.value, m.wanted⟩ }

def Predicate.relabel (f : String → String) (p : Predicate) : Predicate :=
  { p with expr := p.expr.relabel f, membership := p.membership.map fun m => ⟨m.value.relabel f, m.wanted⟩ }

/-- The change of expressions goes through what a restriction makes of them: disjunctions, and counts of the values of
a membership test. -/
structure Structural (g : Expr → Expr) : Prop where
  or : ∀ a b, g (.or a b) = .or (g a) (g b)
  count : ∀ a n, g (.compare .eq (.call .countDistinct a) (.value n)) =
    .compare .eq (.call .countDistinct (g a)) (.value n)

theorem structural_relabel (f : String → String) : Structural (Expr.relabel f) :=
  ⟨fun a b => by simp only [Expr.relabel], fun a n => by simp only [Expr.relabel]⟩

theorem countTest_map {g : Expr → Expr} (hg : Structural g) (p : Predicate) :
    (p.map g).countTest = p.countTest.map g := by
  obtain ⟨field, e, level, _ | m⟩ := p
  · rfl
  · simp only [Predicate.map, Predicate.countTest, Option.map_some]
    split
    · rw [Option.map_some, hg.count]
    · rfl

def Compiled.relabel (f : String → String) (c : Compiled) : Compiled :=
  ⟨c.scope.relabel f, c.parameters, c.outcome.map (Predicate.relabel f)⟩

def CompiledAll.relabel (f : String → String) (c : CompiledAll) : CompiledAll :=
  ⟨c.scope.relabel f, c.parameters, c.dropped, c.outcome.map (List.map (Predicate.relabel f))⟩

section
variable {f : String → String} {s : Scope}

theorem countTest_relabel (p : Predicate) : (p.relabel f).countTest = p.countTest.map (Expr.relabel f) :=
  countTest_map (structural_relabel f) p

theorem compileOnTerm_relabel (hf : KeepsBehind f s.label) (field : String) (c : Criterion) (ps : List Parameter) :
    compileOnTerm (s.relabel f) field c ps = (compileOnTerm s field c ps).relabel f := by
  unfold compileOnTerm
  rw [Scope.filterTarget_relabel hf]
  rcases s.filterTarget field with ⟨s', e | t⟩
  · rfl
  · simp only [Scope.relabelFound, Except.map, Criterion.build_relabel, Binding.mapped]
    rcases c.build t with ⟨vs, e | ⟨e, n⟩⟩
    · rfl
    · cases n <;> rfl

theorem nonexistence_relabel (outer inner : Scope) (p : Predicate) :
    nonexistence (outer.relabel f) (inner.relabel f) (p.relabel f) = (nonexistence outer inner p).relabel f := by
  have hq := fun groupBy having => Scope.correlated_relabel (f := f) (s := inner) (.value (.int32 1))
    outer.identity.expr [p.expr] groupBy having
  unfold nonexistence
  rw [countTest_relabel, Scope.identity_relabel, Scope.identity_relabel]
  cases p.countTest with
  | none =>
    have hnone := hq [] []
    simp only [List.map_nil, List.map_cons, Expr.relabel] at hnone
    simp only [Option.map_none, Expr.relabel, Predicate.relabel, Term.relabel, hnone]
  | some count =>
    have hsome := hq [inner.identity.expr] [count]
    simp only [List.map_nil, List.map_cons, Expr.relabel] at hsome
    simp only [Option.map_some, Expr.relabel, Predicate.relabel, Term.relabel, hsome]

theorem compile_relabel (hf : KeepsBehind f s.label) (field : String) (c : Criterion) (ps : List Parameter) :
    compile (s.relabel f) field c ps = (compile s field c ps).relabel f := by
  unfold compile
  cases c with
  | negation inner =>
    have hfield : ((s.relabel f).field? field).isSome = (s.field? field).isSome := by
      rw [Scope.field?_relabel, Option.isSome_map]
    simp only [hfield, Scope.detached_relabel hf, compileOnTerm_relabel (Scope.keepsBehind_detached hf)]
    split
    · exact compileOnTerm_relabel hf field _ ps
    · simp only [Compiled.relabel]
      cases (compileOnTerm s.detached field inner ps).outcome with
      | error e => rfl
      | ok p =>
        simp only [Except.map, Scope.hasToManyJoins_relabel]
        split
        · rw [nonexistence_relabel]
          rfl
        · have hopened : KeepsBehind f s.opened.label := hf
          exact compileOnTerm_relabel hopened field _ ps
  | null | value | alternatives | numeric | enumerated | boolean | textMatch =>
    exact compileOnTerm_relabel hf field _ ps

theorem compileAll_relabel (fs : List Filter) : ∀ {s : Scope}, KeepsBehind f s.label → ∀ ps : List Parameter,
    compileAll (s.relabel f) ps fs = (compileAll s ps fs).relabel f := by
  induction fs with
  | nil => exact fun _ _ => rfl
  | cons x fs ih =>
    intro s hf ps
    have hgrows := grows_compile s x.path x.criterion ps
    have hf' : KeepsBehind f (compile s x.path x.criterion ps).scope.label := by
      rw [hgrows.label]
      exact hf
    simp only [compileAll, compile_relabel hf]
    generalize compile s x.path x.criterion ps = c at hf'
    obtain ⟨s', ps', e | p⟩ := c
    · simp only [Compiled.relabel, Except.map]
      split
      · rw [ih hf']
        rfl
      · rfl
    · simp only [Compiled.relabel, Except.map, ih hf', CompiledAll.relabel]
      cases (compileAll s' ps' fs).outcome <;> rfl

end

/-! ## Preparing -/

def Restriction.map (g : Expr → Expr) (r : Restriction) : Restriction :=
  ⟨r.conditions.map g, r.groupBy.map g, r.having.map g⟩

def Restriction.relabel (f : String → String) (r : Restriction) : Restriction :=
  ⟨r.conditions.map (Expr.relabel f), r.groupBy.map (Expr.relabel f), r.having.map (Expr.relabel f)⟩

namespace Restriction
variable {g : Expr → Expr} (hg : Structural g)

section
include hg

theorem addPredicate_map (r : Restriction) (p : Predicate) :
    (r.map g).addPredicate (p.map g) = (r.addPredicate p).map g := by
  unfold addPredicate
  rw [countTest_map hg]
  obtain ⟨field, e, level, m⟩ := p
  cases level <;> cases Predicate.countTest ⟨field, e, _, m⟩ <;> simp [map, Predicate.map]

theorem foldl_addPredicate_map (ps : List Predicate) : ∀ r : Restriction,
    (ps.map (Predicate.map g)).foldl addPredicate (r.map g) = (ps.foldl addPredicate r).map g := by
  induction ps with
  | nil => exact fun _ => rfl
  | cons p ps ih =>
    intro r
    rw [List.map_cons, List.foldl_cons, List.foldl_cons, addPredicate_map hg, ih]

theorem addOptional_map (r : Restriction) (ps : List Predicate) :
    (r.map g).addOptional (ps.map (Predicate.map g)) = (r.addOptional ps).map g := by
  have hexprs : (ps.map (Predicate.map g)).map Predicate.expr = (ps.map Predicate.expr).map g := by
    simp [Predicate.map, Function.comp_def]
  have hlevels : (ps.map (Predicate.map g)).any (fun p => p.level == .group) = ps.any fun p => p.level == .group := by
    simp [Predicate.map, Function.comp_def]
  unfold addOptional
  rw [hexprs, Expr.disjunction_map hg.or, hlevels]
  cases Expr.disjunction (ps.map Predicate.expr) with
  | none => rfl
  | some e =>
    simp only [Option.map_some]
    split <;> simp [map]

end

@[simp] theorem groupBy_addPredicate (r : Restriction) (p : Predicate) : (r.addPredicate p).groupBy = r.groupBy := by
  unfold addPredicate
  cases p.level <;> rfl

@[simp] theorem groupBy_foldl_addPredicate (ps : List Predicate) : ∀ r : Restriction,
    (ps.foldl addPredicate r).groupBy = r.groupBy := by
  induction ps with
  | nil => exact fun _ => rfl
  | cons p ps ih =>
    intro r
    rw [List.foldl_cons, ih, groupBy_addPredicate]

@[simp] theorem groupBy_addOptional (r : Restriction) (ps : List Predicate) :
    (r.addOptional ps).groupBy = r.groupBy := by
  unfold addOptional
  split
  · rfl
  · split <;> rfl

/-- **The grouping of a routed restriction**: the identity when groups are restricted, else nothing. -/
theorem groupBy_route {r : Restriction} (hr : r.groupBy = []) (required optional : List Predicate) (identity : Expr) :
    (r.route required optional identity).groupBy =
      if (r.route required optional identity).having.isEmpty then [] else [identity] := by
  have hnone : ((required.foldl addPredicate r).addOptional optional).groupBy = [] := by
    rw [groupBy_addOptional, groupBy_foldl_addPredicate, hr]
  unfold route groupByIdentity
  generalize (required.foldl addPredicate r).addOptional optional = q at hnone
  cases hq : q.having.isEmpty with
  | true => simp [hq, hnone]
  | false => simp [hq, hnone, addGrouping]

theorem conditions_route (r : Restriction) (required optional : List Predicate) (identity : Expr) :
    (r.route required optional identity).conditions =
      ((required.foldl addPredicate r).addOptional optional).conditions := by
  unfold route groupByIdentity
  split <;> rfl

theorem having_route (r : Restriction) (required optional : List Predicate) (identity : Expr) :
    (r.route required optional identity).having = ((required.foldl addPredicate r).addOptional optional).having := by
  unfold route groupByIdentity
  split <;> rfl

include hg in
theorem route_map {r : Restriction} (hr : r.groupBy = []) (required optional : List Predicate) (identity : Expr) :
    (r.map g).route (required.map (Predicate.map g)) (optional.map (Predicate.map g)) (g identity) =
      (r.route required optional identity).map g := by
  have hr' : (r.map g).groupBy = [] := by
    simp [map, hr]
  have hq : (((required.map (Predicate.map g)).foldl addPredicate (r.map g)).addOptional
      (optional.map (Predicate.map g))) = ((required.foldl addPredicate r).addOptional optional).map g := by
    rw [foldl_addPredicate_map hg, addOptional_map hg]
  have hhaving := having_route (r.map g) (required.map (Predicate.map g)) (optional.map (Predicate.map g)) (g identity)
  have hconditions := conditions_route (r.map g) (required.map (Predicate.map g)) (optional.map (Predicate.map g))
    (g identity)
  have hgroupBy := groupBy_route hr' (required.map (Predicate.map g)) (optional.map (Predicate.map g)) (g identity)
  rw [hq] at hhaving hconditions
  rw [hhaving] at hgroupBy
  have hsame := groupBy_route hr required optional identity
  rw [having_route] at hsame
  generalize (r.map g).route (required.map (Predicate.map g)) (optional.map (Predicate.map g)) (g identity) = q'
    at hhaving hconditions hgroupBy
  obtain ⟨conditions, groupBy, having⟩ := q'
  simp only [map, List.isEmpty_map] at hhaving hconditions hgroupBy ⊢
  rw [hhaving, hconditions, hgroupBy, conditions_route, having_route, hsame]
  split <;> rfl

theorem route_relabel (f : String → String) {r : Restriction} (hr : r.groupBy = []) (required optional : List Predicate)
    (identity : Expr) :
    (r.relabel f).route (required.map (Predicate.relabel f)) (optional.map (Predicate.relabel f))
        (identity.relabel f) = (r.route required optional identity).relabel f :=
  route_map (structural_relabel f) hr required optional identity

end Restriction

def Prepared.relabel (f : String → String) (p : Prepared) : Prepared :=
  ⟨p.scope.relabel f, p.projection.map (Projection.relabel f), p.restriction.relabel f, p.parameters⟩

theorem restrict_relabel {f : String → String} {s : Scope} (hf : KeepsBehind f s.label) (r : Request)
    (projection : Option Projection) (conditions : List Expr) :
    restrict (s.relabel f) r (projection.map (Projection.relabel f)) (conditions.map (Expr.relabel f)) =
      Prod.map id (Except.map (Prepared.relabel f)) (restrict s r projection conditions) := by
  have hrequired := grows_compileAll s [] r.required
  unfold restrict
  rw [compileAll_relabel _ hf]
  generalize compileAll s [] r.required = required at hrequired
  obtain ⟨s₁, ps₁, dropped₁, e | must⟩ := required
  · rfl
  · have hf₁ : KeepsBehind f s₁.label := by
      have hlabel : s₁.label = s.label := hrequired.label
      exact hlabel ▸ hf
    simp only [CompiledAll.relabel, Except.map, compileAll_relabel _ hf₁]
    obtain ⟨s₂, ps₂, dropped₂, e | may⟩ := compileAll s₁ ps₁ r.optional
    · rfl
    · have hroute := Restriction.route_relabel f (r := Restriction.ofConditions conditions) rfl must may
        s₂.identity.expr
      simp only [Prod.map, Except.map, Prepared.relabel, ← hroute, Scope.identity_relabel]
      rfl

/-- **Preparing a root under another label is preparing it and changing the labels.** -/
theorem prepare_relabel {f : String → String} {label : String} (hf : KeepsBehind f label) (catalog : Catalog)
    (root : Entity) (r : Request) (recipe : Option Recipe) :
    (prepare catalog root r recipe (f label)).2 =
      (prepare catalog root r recipe label).2.map (Prepared.relabel f) := by
  have hnew : KeepsBehind f (Scope.new catalog root label).label := hf
  unfold prepare
  rw [Scope.new_relabel]
  cases recipe with
  | none =>
    have h := restrict_relabel hnew r none []
    simp only [Option.map_none, List.map_nil] at h
    simp only [h, Prod.map]
  | some recipe =>
    have hgrows := RunState.grows_run (Scope.new catalog root label) recipe
    simp only [RunState.run_relabel hnew]
    generalize RunState.run (Scope.new catalog root label) recipe = run at hgrows
    obtain ⟨st, _ | e⟩ := run
    · have hf' : KeepsBehind f (st.scope.withFields (recipe.projection? st)).label := by
        have hlabel : st.scope.label = label := hgrows.label
        exact hlabel.symm ▸ hf
      have h := restrict_relabel hf' r (recipe.projection? st) st.conditions
      have hscope : (st.scope.withFields (recipe.projection? st)).relabel f =
          (st.relabel f).scope.withFields ((recipe.projection? st).map (Projection.relabel f)) := by
        cases recipe.projection? st <;> rfl
      rw [hscope] at h
      show (restrict ((st.relabel f).scope.withFields (recipe.projection? (st.relabel f))) r
        (recipe.projection? (st.relabel f)) (st.relabel f).conditions).2 = _
      rw [Recipe.projection?_relabel]
      exact congrArg Prod.snd h
    · rfl

end PageQuery
