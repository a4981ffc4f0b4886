import PageQuery.Proofs.Complement
import PageQuery.Proofs.Relatives
/-!
# Requests along to-one relations are exact

A path along to-one relations that ends in a scalar, or in a to-one relation itself, reads one cell of one row.  Where
all paths of a request are of that kind, every criterion is about rows, nothing is grouped, and the rows are the root
rows, each once and extended by its relatives, that satisfy the required predicates and, where there are optional ones,
one of them.  The total counts the same root rows.
-/
namespace PageQuery

variable {d : Dialect} {db : Store}

/-! ## Paths with one value -/

namespace Scope
variable {s : Scope}

theorem walk_toOne (path name : String) : ∀ {segments : List String} {p q : Position},
    (s.walk path p segments).2 = .ok q → s.catalog.manyAmong p.entity (segments ++ [name]) = false →
      (∀ j ∈ (s.walk path p segments).1, j.join.toMany = false) ∧
        ∀ a, q.entity.lookup name = .ok a → a.isCollection = false
  | [], p, q, h, hone => by
    cases h
    refine ⟨fun j hj => (List.not_mem_nil hj).elim, fun a ha => ?_⟩
    simp only [List.nil_append, Catalog.manyAmong, Entity.lookup?_of_lookup ha, Bool.or_eq_false_iff] at hone
    exact hone.1
  | segment :: rest, p, q, h, hone => by
    obtain ⟨j, p', hstep, hend, hjoins⟩ := walk_cons_ok h
    obtain ⟨a, target, e, ha, he, hp', hjoin⟩ := step_cases hstep
    simp only [List.cons_append, Catalog.manyAmong, Entity.lookup?_of_lookup ha, Bool.or_eq_false_iff] at hone
    rw [hjoins]
    rcases hjoin with ⟨key, hstorage, rfl⟩ | ⟨column, hstorage, -⟩
    · have hrest : s.catalog.manyAmong p'.entity (rest ++ [name]) = false := by
        rw [hp']
        simpa [hstorage, Catalog.targetOf, Catalog.entity?_of_require he] using hone.2
      obtain ⟨hjs, hlast⟩ := walk_toOne path name hend hrest
      refine ⟨fun k hk => ?_, hlast⟩
      rcases List.mem_cons.1 hk with rfl | hk
      · rfl
      · exact hjs k hk
    · have hmany : a.isCollection = true := by
        unfold Attribute.isCollection
        rw [hstorage]
      rw [hmany] at hone
      cases hone.1

/-- **A path with one value** needs to-one joins only, and means a column. -/
theorem trace_toOne {path : String} {a : Attribute} (hone : s.catalog.manyAlong s.root path = false)
    (h : s.terminal path = .ok a) : a.isCollection = false ∧ (∀ j ∈ (s.trace path).1, j.join.toMany = false) ∧
      ∀ t, (s.trace path).2 = .ok t → ∃ l c type, t = ⟨Expr.col l c, type, .column⟩ := by
  obtain ⟨segments, p, name, marker, hparse, hwalk, hmarker, ha⟩ := terminal_ok h
  unfold Catalog.manyAlong at hone
  simp only [hparse, hmarker] at hone
  obtain ⟨hjoins, hlast⟩ := walk_toOne path name (p := s.start) hwalk hone
  refine ⟨hlast a ha, ?_⟩
  unfold trace
  simp only [hparse]
  rcases hwalked : s.walk path s.start segments.parents with ⟨js, e | p'⟩
  · rw [hwalked] at hwalk
    cases hwalk
  · rw [hwalked] at hwalk hjoins
    cases hwalk
    simp only
    cases hleaf : s.leaf path p segments.last with
    | error e => exact ⟨hjoins, fun t ht => by cases ht⟩
    | ok jt =>
      obtain ⟨j, t⟩ := jt
      obtain ⟨name', marker', a', hmarker', ha', ⟨-, rfl, c, type, -, rfl⟩ | ⟨hmany, -⟩⟩ := leaf_cases hleaf
      · refine ⟨fun j hj => hjoins j (by simpa using hj), fun t ht => ?_⟩
        cases ht
        exact ⟨_, _, _, rfl⟩
      · rw [hmarker] at hmarker'
        cases hmarker'
        rw [hlast a' ha'] at hmany
        cases hmany

theorem hasToManyJoins_addJoins {js : List KeyedJoin} (hs : s.hasToManyJoins = false)
    (hjs : ∀ j ∈ js, j.join.toMany = false) : (s.addJoins js).hasToManyJoins = false := by
  unfold hasToManyJoins at hs ⊢
  rw [List.any_eq_false] at hs ⊢
  intro j hj
  rcases mem_addJoins hj with hj | hj
  · exact hs j hj
  · rw [hjs j hj]
    exact Bool.false_ne_true

theorem resolveMarked_toOne (mark : String → String) {path : String} (hfields : s.fields = [])
    (hone : s.catalog.manyAlong s.root path = false) :
    (s.hasToManyJoins = false → (s.resolveMarked mark path).1.hasToManyJoins = false) ∧
    ∀ t, (s.resolveMarked mark path).2 = .ok t →
      s.resolveMarked mark path = (s.addJoins (s.trace path).1, .ok t) ∧ (s.trace path).2 = .ok t ∧
        ∃ l c type, t = ⟨Expr.col l c, type, .column⟩ := by
  unfold resolveMarked resolve
  rw [field?_of_fields_eq_nil hfields]
  cases ha : s.terminal path with
  | error e => exact ⟨fun hs => hs, fun t ht => by cases ht⟩
  | ok a =>
    obtain ⟨hplain, hjoins, hterm⟩ := trace_toOne hone ha
    simp only [hplain, Bool.false_and, Bool.false_eq_true, if_false, field?_of_fields_eq_nil hfields]
    exact ⟨fun hs => hasToManyJoins_addJoins hs hjoins, fun t ht => ⟨by rw [ht], ht, hterm t ht⟩⟩

theorem terminal_of_trace {path : String} {t : Term} (h : (s.trace path).2 = .ok t) :
    ∃ a, s.terminal path = .ok a := by
  obtain ⟨segments, p, j, hparse, hwalk, hleaf, -⟩ := trace_ok h
  obtain ⟨name, marker, a, hmarker, ha, -⟩ := leaf_cases hleaf
  refine ⟨a, ?_⟩
  unfold terminal
  simp only [hparse, hwalk, hmarker, bind, Except.bind]
  exact ha

theorem resolveMarked_of_trace (mark : String → String) {path : String} (hfields : s.fields = [])
    (hone : s.catalog.manyAlong s.root path = false) {t : Term} (h : (s.trace path).2 = .ok t) :
    s.resolveMarked mark path = (s.addJoins (s.trace path).1, .ok t) := by
  obtain ⟨a, ha⟩ := terminal_of_trace h
  obtain ⟨hplain, -, -⟩ := trace_toOne hone ha
  unfold resolveMarked resolve
  simp only [field?_of_fields_eq_nil hfields, ha, hplain, Bool.false_and, Bool.false_eq_true, if_false]
  rw [h]

theorem trace_detached {path : String} {t : Term} (h : (s.trace path).2 = .ok t) :
    ∃ t', (s.detached.trace path).2 = .ok t' := by
  rw [detached_eq, trace_relabel (s := s.base) (keepsBehind_rebase s.label _), trace_base]
  simp only [Prod.map, h, Except.map]
  exact ⟨_, rfl⟩

end Scope

/-! ## Criteria on such paths -/

theorem Criterion.build_unlisted {t : Term} (ht : t.isCollection = false) (c : Criterion) :
    (c.build t).Yields fun b => b.wanted = none := by
  have hmap : ∀ {α : Type} (x : Binding α) (g : α → Expr),
      (x >>= fun a => Pure.pure (Built.plain (g a)) : Binding Built).Yields fun b => b.wanted = none :=
    fun x g => Binding.yields_bind fun a => Binding.yields_pure rfl
  cases c with
  | negation inner =>
    simp only [Criterion.build]
    exact hmap _ fun b : Built => .not b.expr
  | null =>
    simp only [Criterion.build]
    exact Binding.yields_pure rfl
  | alternatives items =>
    simp only [Criterion.build, ht, Bool.false_eq_true, if_false]
    unfold anyBuilt
    cases Expr.disjunction (Criterion.buildAll t items).2 with
    | none => exact fun b hb => by cases hb
    | some e => exact Binding.yields_pure rfl
  | value | numeric | enumerated | boolean | textMatch =>
    simp only [Criterion.build, ht, Bool.false_eq_true, if_false]
    exact hmap _ id

structure Predicate.Plain (p : Predicate) : Prop where
  level : p.level = .row
  countTest : p.countTest = none

section
variable {s : Scope} (hfields : s.fields = []) {field : String} (hone : s.catalog.manyAlong s.root field = false)
include hfields hone

theorem compileOnTerm_toOne (c : Criterion) (ps : List Parameter) :
    (s.hasToManyJoins = false → (compileOnTerm s field c ps).scope.hasToManyJoins = false) ∧
      ∀ p, (compileOnTerm s field c ps).outcome = .ok p → p.Plain := by
  obtain ⟨hjoins, hterm⟩ := Scope.resolveMarked_toOne membershipPath hfields hone
  have hscope : (compileOnTerm s field c ps).scope = (s.resolveMarked membershipPath field).1 := by
    unfold compileOnTerm Scope.filterTarget
    rcases s.resolveMarked membershipPath field with ⟨s', e | t⟩ <;> rfl
  refine ⟨by rw [hscope]; exact hjoins, fun p hp => ?_⟩
  obtain ⟨t, b, htarget, hb, rfl⟩ := compileOnTerm_ok hp
  obtain ⟨-, -, l, col, type, rfl⟩ := hterm t (by rw [← Scope.filterTarget, htarget])
  have hwanted : b.wanted = none := Criterion.build_unlisted rfl c b hb
  refine ⟨rfl, ?_⟩
  unfold Predicate.countTest predicateOf
  rw [hwanted]
  rfl

theorem compile_negation_toOne (inner : Criterion) (ps : List Parameter) :
    compile s field (.negation inner) ps =
      match (compileOnTerm s.detached field inner ps).outcome with
      | .error e => ⟨s.opened, ps, .error e⟩
      | .ok _ => compileOnTerm s.opened field (.negation inner) ps := by
  have hinside := (compileOnTerm_toOne (s := s.detached) rfl hone inner ps).1 rfl
  unfold compile
  simp only [Scope.field?_of_fields_eq_nil hfields, Option.isSome_none, Bool.false_eq_true, if_false]
  cases (compileOnTerm s.detached field inner ps).outcome with
  | error e => rfl
  | ok p => simp only [hinside, Bool.false_eq_true, if_false]

theorem compile_toOne (c : Criterion) (ps : List Parameter) :
    (s.hasToManyJoins = false → (compile s field c ps).scope.hasToManyJoins = false) ∧
      ∀ p, (compile s field c ps).outcome = .ok p → p.Plain := by
  by_cases hnegation : ∃ inner, c = .negation inner
  · obtain ⟨inner, rfl⟩ := hnegation
    rw [compile_negation_toOne hfields hone]
    cases (compileOnTerm s.detached field inner ps).outcome with
    | error e => exact ⟨fun hs => hs, fun p hp => by cases hp⟩
    | ok q => exact compileOnTerm_toOne (s := s.opened) hfields hone (.negation inner) ps
  · have hplain : ∀ inner, c ≠ .negation inner := fun inner h => hnegation ⟨inner, h⟩
    rw [compile_plain hplain]
    exact compileOnTerm_toOne hfields hone c ps

theorem compileOnTerm_soft {t : Term} (h : (s.trace field).2 = .ok t) (c : Criterion) (ps : List Parameter) :
    ∀ e, (compileOnTerm s field c ps).outcome = .error e → e.isSoft = true := by
  unfold compileOnTerm Scope.filterTarget
  rw [Scope.resolveMarked_of_trace membershipPath hfields hone h]
  simp only
  intro e he
  cases hb : (c.build t).outcome with
  | error fault =>
    rw [hb] at he
    cases he
    rfl
  | ok b =>
    rw [hb] at he
    cases he

theorem compile_soft {t : Term} (h : (s.trace field).2 = .ok t) (c : Criterion) (ps : List Parameter) :
    ∀ e, (compile s field c ps).outcome = .error e → e.isSoft = true := by
  by_cases hnegation : ∃ inner, c = .negation inner
  · obtain ⟨inner, rfl⟩ := hnegation
    rw [compile_negation_toOne hfields hone]
    cases hinner : (compileOnTerm s.detached field inner ps).outcome with
    | error e =>
      obtain ⟨t', ht'⟩ : ∃ t', (s.detached.trace field).2 = .ok t' := Scope.trace_detached h
      intro e' he'
      cases he'
      exact compileOnTerm_soft (s := s.detached) rfl hone ht' inner ps e hinner
    | ok q =>
      rw [← (Scope.grows_opened s).trace] at h
      exact compileOnTerm_soft (s := s.opened) hfields hone h (.negation inner) ps
  · have hplain : ∀ inner, c ≠ .negation inner := fun inner h => hnegation ⟨inner, h⟩
    rw [compile_plain hplain]
    exact compileOnTerm_soft hfields hone h c ps

end

/-! ## Whole requests -/

def Request.paths (r : Request) : List String :=
  (r.required.map Filter.path ++ r.optional.map Filter.path) ++ r.ordering.map Ordering.path

/-- None of them crosses a to-many relation or ends in a collection. -/
def Request.ToOne (catalog : Catalog) (root : Entity) (r : Request) : Prop :=
  ∀ path ∈ r.paths, catalog.manyAlong root path = false

instance (catalog : Catalog) (root : Entity) (r : Request) : Decidable (r.ToOne catalog root) :=
  inferInstanceAs (Decidable (∀ path ∈ r.paths, catalog.manyAlong root path = false))

/-- Each of them leads to an attribute, over relations to registered entities. -/
def Request.Resolves (catalog : Catalog) (root : Entity) (r : Request) : Prop :=
  ∀ path ∈ r.paths, ((Scope.new catalog root dataLabel).trace path).2.isOk = true

instance (catalog : Catalog) (root : Entity) (r : Request) : Decidable (r.Resolves catalog root) :=
  inferInstanceAs (Decidable (∀ path ∈ r.paths, ((Scope.new catalog root dataLabel).trace path).2.isOk = true))

structure Scope.Over (catalog : Catalog) (root : Entity) (s : Scope) : Prop where
  catalog : s.catalog = catalog
  root : s.root = root
  fields : s.fields = []

theorem Scope.Over.grows {catalog : Catalog} {root : Entity} {s s' : Scope} (hs : s.Over catalog root)
    (h : s.Grows s') : s'.Over catalog root :=
  ⟨h.catalog.trans hs.catalog, h.root.trans hs.root, h.fields.trans hs.fields⟩

section
variable {catalog : Catalog} {root : Entity} {s : Scope} (hs : s.Over catalog root)
include hs

theorem compileAll_toOne {fs : List Filter} (hone : ∀ f ∈ fs, catalog.manyAlong root f.path = false)
    (ps : List Parameter) : (s.hasToManyJoins = false → (compileAll s ps fs).scope.hasToManyJoins = false) ∧
      ∀ preds, (compileAll s ps fs).outcome = .ok preds → ∀ p ∈ preds, p.Plain := by
  have htoOne : ∀ f ∈ fs, ∀ s ps, s.Over catalog root →
      (s.hasToManyJoins = false → (compile s f.path f.criterion ps).scope.hasToManyJoins = false) ∧
        ∀ p, (compile s f.path f.criterion ps).outcome = .ok p → p.Plain := fun f hf s ps hs => by
    refine compile_toOne hs.fields ?_ f.criterion ps
    rw [hs.catalog, hs.root]
    exact hone f hf
  have hover : ∀ f ∈ fs, ∀ s ps, s.Over catalog root → (compile s f.path f.criterion ps).scope.Over catalog root :=
    fun f _ s ps hs => hs.grows (grows_compile s f.path f.criterion ps)
  refine ⟨fun hjoins => ?_, fun preds h => ?_⟩
  · exact (compileAll_scope (I := fun s => s.Over catalog root ∧ s.hasToManyJoins = false)
      (fun f hf s ps hs => ⟨hover f hf s ps hs.1, (htoOne f hf s ps hs.1).1 hs.2⟩) ps ⟨hs, hjoins⟩).2
  · exact compileAll_forall (P := fun _ p => p.Plain) hover (fun _ hp => hp)
      (fun f hf s ps p hs => (htoOne f hf s ps hs).2 p) hs h

theorem orderTerms_toOne {r : Request} (hone : ∀ o ∈ r.ordering, catalog.manyAlong root o.path = false) {s' : Scope}
    {orders : List OrderTerm} (h : orderTerms s r = (s', .ok orders)) :
    (s.hasToManyJoins = false → s'.hasToManyJoins = false) ∧ ∀ o ∈ orders, o.term.isAggregate = false := by
  have htoOne : ∀ o ∈ r.ordering, ∀ s : Scope, s.Over catalog root → s.catalog.manyAlong s.root o.path = false :=
    fun o ho s hs => by
      rw [hs.catalog, hs.root]
      exact hone o ho
  have hover : ∀ o ∈ r.ordering, ∀ s : Scope, s.Over catalog root → (s.readTarget o.path).1.Over catalog root :=
    fun o _ s hs => hs.grows (Scope.grows_readTarget s o.path)
  refine ⟨fun hjoins => ?_, ?_⟩
  · have hlater := orderTerms_scope (I := fun s => s.Over catalog root ∧ s.hasToManyJoins = false)
      (fun o ho s hs => ⟨hover o ho s hs.1,
        (Scope.resolveMarked_toOne sharedPath hs.1.fields (htoOne o ho s hs.1)).1 hs.2⟩) ⟨hs, hjoins⟩
    rw [h] at hlater
    exact hlater.2
  · refine orderTerms_forall (P := fun _ o => o.term.isAggregate = false) hover (fun _ ho => ho)
      (fun o ho s t hs ht => ?_) hs h
    obtain ⟨-, -, l, c, type, rfl⟩ := (Scope.resolveMarked_toOne sharedPath hs.fields (htoOne o ho s hs)).2 t ht
    rfl

end

theorem compileAll_resolved {catalog : Catalog} {root : Entity} :
    ∀ (ps : List Parameter) {fs : List Filter} {s : Scope},
    s.Over catalog root → (∀ f ∈ fs, catalog.manyAlong root f.path = false) →
    (∀ f ∈ fs, (s.trace f.path).2.isOk = true) → ∃ preds, (compileAll s ps fs).outcome = .ok preds
  | _, [], _, _, _, _ => ⟨[], rfl⟩
  | ps, f :: fs, s, hs, hone, hresolves => by
    have hgrows := grows_compile s f.path f.criterion ps
    obtain ⟨preds, hpreds⟩ := compileAll_resolved (compile s f.path f.criterion ps).parameters
      (hs.grows hgrows) (fun g hg => hone g (List.mem_cons_of_mem f hg)) (by
        simp only [hgrows.trace]
        exact fun g hg => hresolves g (List.mem_cons_of_mem f hg))
    obtain ⟨t, ht⟩ := exists_ok_of_isOk (hresolves f List.mem_cons_self)
    have hfirst : s.catalog.manyAlong s.root f.path = false := by
      rw [hs.catalog, hs.root]
      exact hone f List.mem_cons_self
    simp only [compileAll]
    cases hf : (compile s f.path f.criterion ps).outcome with
    | error e =>
      have hsoft := compile_soft hs.fields hfirst ht f.criterion ps e hf
      simp only [hsoft, if_true]
      exact ⟨preds, hpreds⟩
    | ok p =>
      simp only [hpreds, Except.map]
      exact ⟨_, rfl⟩

theorem orderTerms_resolved {catalog : Catalog} {root : Entity} {r : Request} {s : Scope} (hs : s.Over catalog root)
    (hone : ∀ o ∈ r.ordering, catalog.manyAlong root o.path = false)
    (hresolves : ∀ o ∈ r.ordering, (s.trace o.path).2.isOk = true) :
    ∃ s' orders, orderTerms s r = (s', .ok orders) := by
  have hall : ∀ {os : List Ordering} {s : Scope}, s.Over catalog root →
      (∀ o ∈ os, catalog.manyAlong root o.path = false) → (∀ o ∈ os, (s.trace o.path).2.isOk = true) →
      (∃ s' orders, resolveOrdering s os = (s', .ok orders)) ∧ checkOrdering s os = .ok () := by
    intro os
    induction os with
    | nil => exact fun {s} _ _ _ => ⟨⟨s, [], rfl⟩, rfl⟩
    | cons o os ih =>
      intro s hs hone hresolves
      obtain ⟨t, ht⟩ := exists_ok_of_isOk (hresolves o List.mem_cons_self)
      have hfirst : s.catalog.manyAlong s.root o.path = false := by
        rw [hs.catalog, hs.root]
        exact hone o List.mem_cons_self
      have hread := Scope.resolveMarked_of_trace sharedPath hs.fields hfirst ht
      obtain ⟨a, ha⟩ := Scope.terminal_of_trace ht
      have hgrows := Scope.grows_addPath s o.path
      have honeRest := fun x hx => hone x (List.mem_cons_of_mem o hx)
      have hresolvesRest := fun x hx => hresolves x (List.mem_cons_of_mem o hx)
      obtain ⟨s', orders, hrest⟩ := (ih (hs.grows hgrows) honeRest (by
        simp only [hgrows.trace]
        exact hresolvesRest)).1
      constructor
      · simp only [resolveOrdering, Scope.readTarget, hread, hrest, Except.map]
        exact ⟨s', _, rfl⟩
      · unfold checkOrdering
        simp only [Scope.field?_of_fields_eq_nil hs.fields, Option.isNone_none, if_true, ha, bind, Except.bind]
        exact (ih hs honeRest hresolvesRest).2
  obtain ⟨hresolved, hchecked⟩ := hall hs hone hresolves
  unfold orderTerms
  split
  · rw [hchecked]
    exact ⟨s, [], rfl⟩
  · exact hresolved

/-! ## The rows -/

/-- A joined row satisfies every required predicate and, where there are optional ones, one of them. -/
def meetsAll (d : Dialect) (db : Store) (must may : List Predicate) (w : Tuple) : Bool :=
  must.all (fun p => isTrue (p.expr.eval d db [w])) &&
    (may.isEmpty || may.any fun p => isTrue (p.expr.eval d db [w]))

theorem route_plain {must may : List Predicate} (hmust : ∀ p ∈ must, p.Plain) (hmay : ∀ p ∈ may, p.Plain)
    (identity : Expr) : (Restriction.ofConditions []).route must may identity =
      ⟨must.map Predicate.expr ++ (Expr.disjunction (may.map Predicate.expr)).toList, [], []⟩ := by
  have hcounts : (must.flatMap fun p => p.countTest.toList) = [] := by
    rw [List.flatMap_eq_nil_iff]
    intro p hp
    rw [(hmust p hp).countTest]
    rfl
  unfold Restriction.route
  rw [Restriction.foldl_addPredicate_row fun p hp => (hmust p hp).level,
    Restriction.addOptional_row fun p hp => (hmay p hp).level, hcounts]
  simp [Restriction.ofConditions, Restriction.groupByIdentity]

theorem holdsAll_plain (must may : List Predicate) (w : Tuple) :
    holdsAll d db (must.map Predicate.expr ++ (Expr.disjunction (may.map Predicate.expr)).toList) [w] =
      meetsAll d db must may w := by
  have hmay : holdsAll d db (Expr.disjunction (may.map Predicate.expr)).toList [w] =
      (may.isEmpty || may.any fun p => isTrue (p.expr.eval d db [w])) := by
    rw [Bool.eq_iff_iff, holdsAll_disjunction, Bool.or_eq_true, List.isEmpty_iff, List.map_eq_nil_iff,
      List.any_eq_true]
    simp
  unfold meetsAll
  rw [← hmay]
  simp [holdsAll, List.all_append, List.all_map, Function.comp_def]

theorem Statement.groups_of_bare {q : Statement} (hgroupBy : q.groupBy = []) (hhaving : q.having = [])
    (haggregated : q.aggregated = false) : q.groups d db = (q.kept d db).map fun w => [w] := by
  have hfree : ∀ gs : List (List Tuple), gs.filter (holdsAll d db []) = gs := fun gs =>
    List.filter_eq_self.2 fun _ _ => rfl
  unfold groups pick parts kept
  simp only [hgroupBy, hhaving, haggregated, List.isEmpty_nil, if_true, Bool.false_eq_true, if_false, hfree]

theorem Statement.rows_of_bare {q : Statement} (hgroupBy : q.groupBy = []) (hhaving : q.having = [])
    (haggregated : q.aggregated = false) (hdistinct : q.distinct = false) :
    q.rows d db = (q.kept d db).map fun w => ⟨q.items.map fun i => i.expr.eval d db [w], [w]⟩ := by
  unfold rows
  rw [groups_of_bare hgroupBy hhaving haggregated, hdistinct, List.map_map]
  rfl

/-- What the build of a request along to-one relations consists of: its predicates, required and optional, and the scope
in which everything was resolved. -/
structure ToOneParts (catalog : Catalog) (root : Entity) (r : Request) (data : Plan) (must may : List Predicate)
    (s : Scope) : Prop where
  criteria : r.CompilesTo (Scope.new catalog root dataLabel) must may
  catalog : s.catalog = catalog
  root : s.root = root
  label : s.label = dataLabel
  laid : s.Laid
  toOne : s.hasToManyJoins = false
  joins : data.statement.joins = s.joinList
  distinct : data.statement.distinct = false
  groupBy : data.statement.groupBy = []
  having : data.statement.having = []

section
variable {catalog : Catalog} {root : Entity} {r : Request} (hone : r.ToOne catalog root)
include hone

theorem Request.ToOne.required : ∀ f ∈ r.required, catalog.manyAlong root f.path = false := fun _ hf =>
  hone _ (List.mem_append_left _ (List.mem_append_left _ (List.mem_map_of_mem hf)))

theorem Request.ToOne.ordering : ∀ o ∈ r.ordering, catalog.manyAlong root o.path = false := fun _ ho =>
  hone _ (List.mem_append_right _ (List.mem_map_of_mem ho))

theorem Request.ToOne.optional : ∀ f ∈ r.optional, catalog.manyAlong root f.path = false := fun _ hf =>
  hone _ (List.mem_append_left _ (List.mem_append_right _ (List.mem_map_of_mem hf)))

theorem exists_build_toOne (caps : Capabilities) (wantCount : Bool) {recipe : Option Recipe}
    (hwhole : ∀ x ∈ recipe, x = Recipe.wholeEntity) (hresolves : r.Resolves catalog root) :
    ∃ plan, (PagePlan.build catalog root caps r wantCount recipe false).2 = .ok plan := by
  have hnew : (Scope.new catalog root dataLabel).Over catalog root := ⟨rfl, rfl, rfl⟩
  have hgrows := grows_compileAll (Scope.new catalog root dataLabel) [] r.required
  obtain ⟨must, hmust⟩ := compileAll_resolved [] hnew hone.required
    fun f hf => hresolves _ (List.mem_append_left _ (List.mem_append_left _ (List.mem_map_of_mem hf)))
  obtain ⟨may, hmay⟩ := compileAll_resolved
    (compileAll (Scope.new catalog root dataLabel) [] r.required).parameters (hnew.grows hgrows) hone.optional
    fun f hf => by
      rw [hgrows.trace]
      exact hresolves _ (List.mem_append_left _ (List.mem_append_right _ (List.mem_map_of_mem hf)))
  have hprepare : ∃ p, (prepare catalog root r recipe dataLabel).2 = .ok p ∧
      p.scope = (compileAll (compileAll (Scope.new catalog root dataLabel) [] r.required).scope
        (compileAll (Scope.new catalog root dataLabel) [] r.required).parameters r.optional).scope := by
    rw [prepare_wholeEntity hwhole]
    unfold restrict
    simp only [hmust, hmay]
    exact ⟨_, rfl, rfl⟩
  obtain ⟨p, hprepare, hscope⟩ := hprepare
  have hlater := hgrows.trans (grows_compileAll (compileAll (Scope.new catalog root dataLabel) [] r.required).scope
    (compileAll (Scope.new catalog root dataLabel) [] r.required).parameters r.optional)
  rw [← hscope] at hlater
  obtain ⟨s, orders, horders⟩ := orderTerms_resolved (hnew.grows hlater) hone.ordering (by
    simp only [hlater.trace]
    exact fun o ho => hresolves _ (List.mem_append_right _ (List.mem_map_of_mem ho)))
  have hdata : ∃ data, dataPlan r p = .ok data := by
    unfold dataPlan
    simp only [horders]
    exact ⟨_, rfl⟩
  obtain ⟨data, hdata⟩ := hdata
  obtain ⟨plan, hplan, -⟩ := exists_build_of_data hprepare hdata caps wantCount (Bool.false_and p.projection.isNone)
  exact ⟨plan, hplan⟩

/-- **Nothing is grouped**: the build of such a request restricts rows only, over to-one joins. -/
theorem toOneParts_of_prepare {recipe : Option Recipe} (hwhole : ∀ x ∈ recipe, x = Recipe.wholeEntity) {p : Prepared}
    (hprepare : (prepare catalog root r recipe dataLabel).2 = .ok p) {data : Plan} {s : Scope}
    {orders : List OrderTerm} (hparts : DataParts r p data s orders) :
    ∃ must may, ToOneParts catalog root r data must may s ∧ p.projection = none ∧ p.restriction =
      ⟨must.map Predicate.expr ++ (Expr.disjunction (may.map Predicate.expr)).toList, [], []⟩ := by
  have hunder := under_prepare hprepare
  have hlaid := (closed_prepare hprepare).scope.laid
  obtain ⟨hprojection, hfields⟩ := prepare_whole (fun x hx => by rw [hwhole x hx]; rfl) hprepare
  rw [prepare_wholeEntity hwhole] at hprepare
  obtain ⟨must, may, hmust, hmay, hp⟩ := restrict_ok hprepare
  have hnew : (Scope.new catalog root dataLabel).Over catalog root := ⟨rfl, rfl, rfl⟩
  have hgrows := grows_compileAll (Scope.new catalog root dataLabel) [] r.required
  obtain ⟨hmustJoins, hmustPlain⟩ := compileAll_toOne hnew hone.required []
  obtain ⟨hmayJoins, hmayPlain⟩ := compileAll_toOne (hnew.grows hgrows) hone.optional
    (compileAll (Scope.new catalog root dataLabel) [] r.required).parameters
  have hscope : p.scope.hasToManyJoins = false := by
    rw [hp]
    exact hmayJoins (hmustJoins rfl)
  have hrestriction : p.restriction =
      ⟨must.map Predicate.expr ++ (Expr.disjunction (may.map Predicate.expr)).toList, [], []⟩ := by
    rw [hp]
    exact route_plain (hmustPlain must hmust) (hmayPlain may hmay) _
  obtain ⟨hjoins, horders⟩ := orderTerms_toOne ⟨hunder.catalog, hunder.root, hfields⟩ hone.ordering hparts.ordering
  have htoOne := hjoins hscope
  have hgroupBy : data.statement.groupBy = [] := by
    have hany : orders.any (fun o => o.term.isAggregate) = false :=
      List.any_eq_false.2 fun o ho => by rw [horders o ho]; exact Bool.false_ne_true
    rw [hparts.groupBy, hprojection, hrestriction]
    unfold dataGrouping
    simp only [List.isEmpty_nil, Bool.not_true, Option.getD_none, Projection.hasAggregates, List.any_nil, hany,
      Bool.or_false, Bool.false_eq_true, if_false]
  refine ⟨must, may, ⟨⟨hmust, hmay⟩, hparts.grows.catalog.trans hunder.catalog, hparts.grows.root.trans hunder.root,
    hparts.grows.label.trans hunder.label, hparts.grows.laid hlaid, htoOne, hparts.joins, ?_, hgroupBy, ?_⟩,
    hprojection, hrestriction⟩
  · rw [hparts.distinct, htoOne]
    rfl
  · rw [hparts.having, hrestriction]

end

section
variable {catalog : Catalog} {root : Entity} {r : Request} {p : Prepared} {data : Plan} {must may : List Predicate}
  {s : Scope} {orders : List OrderTerm} (hone : ToOneParts catalog root r data must may s)
include hone

theorem ToOneParts.nodup (hnodup : (dataLabel :: data.statement.joins.map Join.label).Nodup) :
    (s.label :: s.joinList.map Join.label).Nodup := by
  rwa [hone.label, ← hone.joins]

theorem ToOneParts.identifies (hdb : ∀ e ∈ root :: catalog.entities, db.Identifies d e) :
    ∀ e ∈ s.catalog.entities, db.Identifies d e := by
  rw [hone.catalog]
  exact fun e he => hdb e (List.mem_cons_of_mem root he)

/-- The joined rows kept are the root rows that satisfy the predicates, extended by their relatives. -/
theorem ToOneParts.kept_eq (hnodup : (dataLabel :: data.statement.joins.map Join.label).Nodup)
    (hdb : ∀ e ∈ root :: catalog.entities, db.Identifies d e) (hparts : DataParts r p data s orders)
    (hconditions : ∀ w, holdsAll d db p.restriction.conditions [w] = meetsAll d db must may w) :
    data.statement.kept d db =
      ((db.rows root.table).filter fun row => meetsAll d db must may (s.extended d db row)).map
        (s.extended d db) := by
  unfold Statement.kept
  rw [hparts.table, hparts.label, ← hone.label, hone.joins,
    hone.laid.tuples_eq hone.toOne (hone.identifies hdb) (hone.nodup hnodup), hparts.conditions, hone.root,
    List.filter_map]
  simp only [hconditions, Function.comp_def]

end

/-- **Requests along to-one relations are exact.**  Where their paths lead to attributes, they are built.  What is built
has no DISTINCT, no grouping and no conditions of groups; as long as no two joins share a label, and over identities
that tell rows apart, its rows are the root rows that, extended by their relatives, satisfy the predicates, each once,
and the total is their number. -/
theorem to_one_exact {catalog : Catalog} {root : Entity} (caps : Capabilities) {r : Request} (wantCount : Bool)
    {recipe : Option Recipe} (hwhole : ∀ x ∈ recipe, x = Recipe.wholeEntity) (hone : r.ToOne catalog root) :
    (r.Resolves catalog root →
      ∃ plan, (PagePlan.build catalog root caps r wantCount recipe false).2 = .ok plan) ∧
    ∀ plan, (PagePlan.build catalog root caps r wantCount recipe false).2 = .ok plan →
      ∃ must may s, ToOneParts catalog root r plan.data must may s ∧
        ((dataLabel :: plan.data.statement.joins.map Join.label).Nodup → ∀ (d : Dialect) (db : Store),
          (∀ e ∈ root :: catalog.entities, db.Identifies d e) →
          plan.data.statement.rows d db =
            ((db.rows root.table).filter fun row => meetsAll d db must may (s.extended d db row)).map
              (fun row => ⟨root.columns.map fun c => row c.2, [s.extended d db row]⟩) ∧
          (wantCount = true → ∃ count, plan.count = some count ∧ count.statement.value d db =
            some (countValue ((db.rows root.table).countP fun row =>
              meetsAll d db must may (s.extended d db row))))) := by
  refine ⟨exists_build_toOne hone caps wantCount hwhole, fun plan hplan => ?_⟩
  obtain ⟨p, hprepare, hdata, hcount⟩ := build_ok hplan
  obtain ⟨s, orders, hparts⟩ := dataPlan_ok hdata
  obtain ⟨must, may, hone, hprojection, hrestriction⟩ := toOneParts_of_prepare hone hwhole hprepare hparts
  refine ⟨must, may, s, hone, fun hnodup d db hdb => ?_⟩
  have hconditions : ∀ w, holdsAll d db p.restriction.conditions [w] = meetsAll d db must may w := fun w => by
    rw [hrestriction]
    exact holdsAll_plain must may w
  refine ⟨?_, fun hwanted => ?_⟩
  · have hitems : ∀ row, (plan.data.statement.items.map fun i => i.expr.eval d db [s.extended d db row]) =
        root.columns.map fun c => row c.2 := fun row => by
      obtain ⟨extra, hitems, hextra⟩ := hparts.items
      rw [hone.distinct, if_neg Bool.false_ne_true] at hextra
      rw [hitems, hextra, List.append_nil, hparts.output_whole hprojection, ← hone.root]
      simp [outputOf, Scope.rootColumn, Expr.col, Expr.eval, Tuple.cell, Scope.extended, Function.comp_def]
    have haggregated := (hparts.plain_of_bare (closed_prepare hprepare) hone.groupBy).2
    rw [Statement.rows_of_bare hone.groupBy hone.having haggregated hone.distinct,
      hone.kept_eq hnodup hdb hparts hconditions, List.map_map]
    exact List.map_congr_left fun row _ => by rw [Function.comp_apply, hitems]
  · obtain ⟨count, hsome, hcount⟩ := hcount hwanted
    obtain ⟨⟨conditions, hstatement⟩, hadmits⟩ := admits_countPlan hprepare hparts hcount
    have hroot := hdb root List.mem_cons_self
    refine ⟨count, hsome, ?_⟩
    rw [hstatement, value_countStatement hroot, ← hstatement]
    congr 2
    refine List.countP_congr fun row hrow => ?_
    -- the joins of the ordering, which the total lacks, select nothing
    obtain ⟨more, hreads⟩ := hparts.reads (under_prepare hprepare)
    have hspan : (p.selection.join more).span d db row = [s.extended d db row] := by
      rw [← hone.laid.joined_eq hone.toOne (hone.identifies hdb) (hone.nodup hnodup) row, hone.label,
        ← hparts.label, hreads.label, ← hone.joins, hreads.joins]
      rfl
    have hhaving : (p.selection.join more).having = [] := by
      rw [← hreads.having]
      exact hone.having
    rw [hadmits d db hroot row hrow, ← Selection.selects_join (closed_prepare hprepare).selection more,
      Selection.selects_of_single hhaving hspan, ← hconditions]
    rfl

open Sample in
/-- Ada of the team Red in Oslo is put out once and counted once. -/
theorem ada_in_oslo_exact :
    adaInOslo.ToOne firm worker ∧ adaInOslo.Resolves firm worker ∧
    ∃ plan count must may s,
      (PagePlan.build firm worker Backend.postgres.capabilities adaInOslo true (some .wholeEntity) false).2 = .ok plan ∧
      plan.count = some count ∧ ToOneParts firm worker adaInOslo plan.data must may s ∧
      (dataLabel :: plan.data.statement.joins.map Join.label).Nodup ∧
      (∀ e ∈ worker :: firm.entities, firmStore.Identifies .plain e) ∧
      plan.data.statement.rows .plain firmStore =
        ((firmStore.rows "workers").filter fun row =>
          meetsAll .plain firmStore must may (s.extended .plain firmStore row)).map
            (fun row => ⟨worker.columns.map fun c => row c.2, [s.extended .plain firmStore row]⟩) ∧
      count.statement.value .plain firmStore = some (countValue ((firmStore.rows "workers").countP fun row =>
        meetsAll .plain firmStore must may (s.extended .plain firmStore row))) ∧
      count.statement.value .plain firmStore = some (countValue 1) := by
  have hone : adaInOslo.ToOne firm worker := by decide +kernel
  have hresolves : adaInOslo.Resolves firm worker := by decide +kernel
  have hwhole : ∀ x ∈ some Recipe.wholeEntity, x = Recipe.wholeEntity := fun x hx => by
    cases hx
    rfl
  have hdb : ∀ e ∈ worker :: firm.entities, firmStore.Identifies .plain e := by decide +kernel
  obtain ⟨hbuilt, hexact⟩ := to_one_exact Backend.postgres.capabilities true hwhole hone
  obtain ⟨plan, hplan⟩ := hbuilt hresolves
  obtain ⟨plan', hplan', hnodup, hvalue⟩ := exists_ok
    (P := fun plan => (dataLabel :: plan.data.statement.joins.map Join.label).Nodup ∧
      plan.count.map (fun c => c.statement.value .plain firmStore) = some (some (countValue 1)))
    (x := (PagePlan.build firm worker Backend.postgres.capabilities adaInOslo true (some .wholeEntity) false).2)
    (by decide +kernel)
  rw [hplan] at hplan'
  cases hplan'
  obtain ⟨must, may, s, hparts, hrows⟩ := hexact plan hplan
  obtain ⟨hrows, hcount⟩ := hrows hnodup .plain firmStore hdb
  obtain ⟨count, hsome, hcount⟩ := hcount rfl
  rw [hsome] at hvalue
  exact ⟨hone, hresolves, plan, count, must, may, s, hplan, hsome, hparts, hnodup, hdb, hrows, hcount,
    Option.some.inj hvalue⟩

end PageQuery
