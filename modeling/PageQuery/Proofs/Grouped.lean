import PageQuery.Proofs.Agreement
import PageQuery.Proofs.Relatives
/-!
# What a grouped statement reads of its groups

The rows of a group agree on what they are grouped by and on the columns of the root, since the root's identity is
always among it.  Outside aggregates and subqueries a statement should read nothing else of a group.

What is put out or sorted by never does: the grouping lists it.  Nor do the required criteria, each of which is asked of
rows or else is a function of groups.  The optional ones are alternatives, and as soon as one of them is a function of
groups all of them are asked of groups; what the others read off rows nobody lists.  So the statements are valid just if
such mixed alternatives read nothing but the root and, of the rows put out, what is listed anyway.
-/
namespace PageQuery

namespace Expr

/-- The columns read outside aggregates and subqueries. -/
def bare : Expr → List Column
  | .column c => [c]
  | .value _ | .nonempty _ | .scalar _ => []
  | .call f e => if f.isAggregate then [] else e.bare
  | .isNull e | .isNotNull e | .inValues e _ | .inQuery e _ | .like e _ | .not e => e.bare
  | .compare _ a b | .and a b | .or a b => a.bare ++ b.bare
  | .between a b c => a.bare ++ (b.bare ++ c.bare)

/-- Of a group the expression reads only columns of the root, which has the label, and what is grouped by. -/
def SettledBy (label : String) (groupBy : List Expr) (e : Expr) : Prop :=
  ∀ c ∈ e.bare, c.source = label ∨ Expr.column c ∈ groupBy

instance (label : String) (groupBy : List Expr) (e : Expr) : Decidable (e.SettledBy label groupBy) :=
  inferInstanceAs (Decidable (∀ c ∈ e.bare, c.source = label ∨ Expr.column c ∈ groupBy))

theorem bare_relabel (f : String → String) : ∀ e : Expr, (e.relabel f).bare = e.bare.map (Column.relabel f)
  | .column _ | .value _ | .nonempty _ | .scalar _ => by simp [relabel, bare]
  | .call g e => by
    simp only [relabel, bare, bare_relabel f e]
    split <;> rfl
  | .isNull e | .isNotNull e | .inValues e _ | .inQuery e _ | .like e _ | .not e => by
    simp only [relabel, bare, bare_relabel f e]
  | .compare _ a b | .and a b | .or a b => by
    simp only [relabel, bare, bare_relabel f a, bare_relabel f b, List.map_append]
  | .between a b c => by
    simp only [relabel, bare, bare_relabel f a, bare_relabel f b, bare_relabel f c, List.map_append]

theorem mem_bare_disjunction {es : List Expr} {e : Expr} (h : disjunction es = some e) {c : Column} :
    c ∈ e.bare ↔ ∃ x ∈ es, c ∈ x.bare := by
  have hfold : ∀ (es : List Expr) (a : Expr), c ∈ (es.foldl Expr.or a).bare ↔ c ∈ a.bare ∨ ∃ x ∈ es, c ∈ x.bare := by
    intro es
    induction es with
    | nil => simp
    | cons x es ih =>
      intro a
      rw [List.foldl_cons, ih, bare, List.mem_append, or_assoc]
      simp
  cases es with
  | nil => cases h
  | cons a es =>
    cases h
    rw [hfold]
    simp

theorem testable_bare : Testable (fun e => e.bare = []) fun e => e.bare = [] where
  lower := fun e he => he
  compare := fun op e v he => by simp only [bare, he, List.append_nil]
  between := fun e v w he => by simp only [bare, he, List.append_nil]
  like := fun e pattern he => he
  among := fun e vs he => he
  isNull := fun e he => he
  not := fun e he => he
  or := fun a b ha hb => by simp only [bare, ha, hb, List.append_nil]

end Expr

/-- All that a grouped statement puts out, restricts groups by or sorts by is settled by its grouping. -/
def Statement.GroupsValidly (q : Statement) : Prop :=
  q.groupBy ≠ [] → ∀ e ∈ q.items.map Item.expr ++ q.having ++ q.orderBy.map SortKey.expr, e.SettledBy q.label q.groupBy

instance (q : Statement) : Decidable q.GroupsValidly :=
  inferInstanceAs (Decidable (q.groupBy ≠ [] →
    ∀ e ∈ q.items.map Item.expr ++ q.having ++ q.orderBy.map SortKey.expr, e.SettledBy q.label q.groupBy))

def Subquery.GroupsValidly : Subquery → Prop
  | .select item _ label _ _ groupBy having => groupBy ≠ [] → ∀ e ∈ item :: having, e.SettledBy label groupBy

instance : ∀ q : Subquery, Decidable q.GroupsValidly
  | .select item _ label _ _ groupBy having =>
    inferInstanceAs (Decidable (groupBy ≠ [] → ∀ e ∈ item :: having, e.SettledBy label groupBy))

/-! ## Terms -/

/-- A term either is a column that groupings list or has no bare columns. -/
def Term.Listed (t : Term) : Prop := ∀ c ∈ t.expr.bare, t.expr = .column c ∧ t.needsGrouping = true

theorem Term.Listed.of_bare {t : Term} (h : t.expr.bare = []) : t.Listed := fun c hc => by
  rw [h] at hc
  cases hc

theorem Term.Listed.of_column {t : Term} {l c : String} (h : t.expr = Expr.col l c) (hlisted : t.needsGrouping = true) :
    t.Listed := fun x hx => by
  rw [h] at hx ⊢
  rw [List.mem_singleton.1 hx]
  exact ⟨rfl, hlisted⟩

theorem Term.Listed.bare_of_aggregate {t : Term} (ht : t.Listed) (hagg : t.isAggregate = true) : t.expr.bare = [] := by
  refine List.eq_nil_iff_forall_not_mem.2 fun c hc => ?_
  have hneeds := (ht c hc).2
  obtain ⟨e, type, _ | _ | _ | _⟩ := t
  · cases hagg
  · cases hagg
  · cases hneeds
  · cases hagg

theorem Term.Listed.collapse {t : Term} (ht : t.Listed) (ascending : Bool) : (collapse t ascending).Listed := by
  unfold PageQuery.collapse
  split
  · cases ascending <;> exact .of_bare rfl
  · exact ht

theorem Term.Listed.settled {t : Term} (ht : t.Listed) {label : String} {groupBy : List Expr}
    (hgroupBy : t.needsGrouping = true → t.expr ∈ groupBy) : t.expr.SettledBy label groupBy := fun c hc => by
  obtain ⟨hexpr, hneeds⟩ := ht c hc
  exact .inr (hexpr ▸ hgroupBy hneeds)

def Scope.Listed (s : Scope) : Prop := ∀ x ∈ s.fields, x.2.Listed

namespace Scope
variable {s s' : Scope}

theorem Grows.listed (h : s.Grows s') (hs : s.Listed) : s'.Listed := by
  unfold Listed
  rw [h.fields]
  exact hs

theorem Listed.resolveMarked (hs : s.Listed) {mark : String → String} {path : String} {t : Term}
    (h : (s.resolveMarked mark path).2 = .ok t) : t.Listed := by
  rcases resolveMarked_cases h with ⟨name, hfield⟩ | ⟨target, -, htrace⟩
  · exact hs _ hfield
  · obtain ⟨hlisted, l, c, hexpr, -⟩ := (trace_made s target).2 t htrace
    exact .of_column hexpr hlisted

theorem Listed.measure (hs : s.Listed) {m : Measure} {path : String} {t : Term} (h : (s.measure m path).2 = .ok t) :
    t.Listed := by
  cases m with
  | path => exact hs.resolveMarked h
  | count | min | max =>
    simp only [Scope.measure, Scope.overGroup] at h
    rcases hread : s.readTarget path with ⟨s', e | u⟩
    · rw [hread] at h
      cases h
    · rw [hread] at h
      cases h
      exact .of_bare rfl
  | sum | avg =>
    simp only [Scope.measure, Scope.perIdentity] at h
    rcases hread : s.detached.readTarget path with ⟨s', e | u⟩
    · rw [hread] at h
      cases h
    · rw [hread] at h
      cases h
      exact .of_bare rfl

end Scope

structure RunState.Listed (st : RunState) : Prop where
  scope : st.scope.Listed
  fields : ∀ x ∈ st.fields, x.2.Listed

namespace RunState
variable {st : RunState}

theorem Listed.withTerm (hst : st.Listed) {s : Scope} (hgrows : st.scope.Grows s) (field : Option String) {t : Term}
    (ht : t.Listed) : (st.withTerm s field t).Listed := by
  refine ⟨hgrows.listed hst.scope, ?_⟩
  cases field with
  | none => exact hst.fields
  | some name => exact Projection.forall_put hst.fields name ht

theorem Listed.read (hst : st.Listed) (m : Measure) (field : Option String) (path : String) :
    (st.read m field path).1.Listed := by
  have hgrows := Scope.grows_measure st.scope m path
  rcases st.read_cases m field path with ⟨s, t, hmeasure, hread⟩ | ⟨s, e, hmeasure, hread⟩
  · rw [hmeasure] at hgrows
    rw [hread]
    exact hst.withTerm hgrows field (hst.scope.measure (by rw [hmeasure]))
  · rw [hmeasure] at hgrows
    rw [hread]
    exact ⟨hgrows.listed hst.scope, hst.fields⟩

theorem Listed.step (hst : st.Listed) (x : Step) : (st.step x).1.Listed := by
  cases x with
  | measure m field path => exact hst.read m field path
  | attempt m path => exact hst.read m none path
  | identity field => exact hst.withTerm (.refl _) field (.of_column rfl rfl)
  | constant field v type origin => exact hst.withTerm (.refl _) field (.of_bare rfl)
  | condition f => exact ⟨hst.scope, hst.fields⟩

theorem Listed.steps (hst : st.Listed) (xs : List Step) : (st.steps xs).1.Listed :=
  steps_keep (fun _ x hst => hst.step x) xs hst
end RunState

/-! ## Criteria -/

/-- The scope in which the criteria of a request are compiled: the fields of its recipe shadow paths. -/
def recipeScope (catalog : Catalog) (root : Entity) (recipe : Option Recipe) (label : String) : Scope :=
  match recipe with
  | none => Scope.new catalog root label
  | some x =>
    let st := (RunState.run (Scope.new catalog root label) x).1
    st.scope.withFields (x.projection? st)

theorem prepare_compiled {catalog : Catalog} {root : Entity} {r : Request} {recipe : Option Recipe} {label : String}
    {p : Prepared} (h : (prepare catalog root r recipe label).2 = .ok p) :
    ∃ must may conditions identity, r.CompilesTo (recipeScope catalog root recipe label) must may ∧
      (recipeScope catalog root recipe label).Listed ∧ p.scope.Listed ∧ (∀ x ∈ p.projection.getD [], x.2.Listed) ∧
      p.restriction = (Restriction.ofConditions conditions).route must may identity := by
  have hcompiled : ∀ {s : Scope} {projection : Option Projection} {conditions : List Expr}, s.Listed →
      (∀ x ∈ projection.getD [], x.2.Listed) → (restrict s r projection conditions).2 = .ok p →
      ∃ must may conditions identity, r.CompilesTo s must may ∧ s.Listed ∧ p.scope.Listed ∧
        (∀ x ∈ p.projection.getD [], x.2.Listed) ∧
        p.restriction = (Restriction.ofConditions conditions).route must may identity := by
    intro s projection conditions hs hprojection hr
    obtain ⟨-, hgrows⟩ := grows_restrict hr
    obtain ⟨must, may, hmust, hmay, rfl⟩ := restrict_ok hr
    exact ⟨must, may, conditions, _, ⟨hmust, hmay⟩, hs, hgrows.listed hs, hprojection, rfl⟩
  have hnew : (Scope.new catalog root label).Listed := fun x hx => (List.not_mem_nil hx).elim
  rcases prepare_ok h with ⟨rfl, hr⟩ | ⟨x, st, rfl, hrun, hr⟩
  · exact hcompiled hnew (fun x hx => (List.not_mem_nil hx).elim) hr
  · have hstart : RunState.Listed ⟨Scope.new catalog root label, [], [], []⟩ :=
      ⟨hnew, fun x hx => (List.not_mem_nil hx).elim⟩
    have hst : st.Listed := by
      have hsteps := hstart.steps x.steps
      rwa [show RunState.steps _ x.steps = (st, none) from hrun] at hsteps
    have hfields : ∀ y ∈ (x.projection? st).getD [], y.2.Listed := by
      unfold Recipe.projection?
      split
      · exact fun y hy => (List.not_mem_nil hy).elim
      · exact hst.fields
    have hscope : recipeScope catalog root (some x) label = st.scope.withFields (x.projection? st) := by
      simp only [recipeScope, hrun]
    rw [hscope]
    exact hcompiled hfields hfields hr

theorem bare_countTest (p : Predicate) : ∀ e ∈ p.countTest, e.bare = [] := by
  intro e he
  unfold Predicate.countTest at he
  split at he
  · split at he
    · cases he
      rfl
    · cases he
  · cases he

theorem compileOnTerm_bare_of_group {s : Scope} (hs : s.Listed) {field : String} {c : Criterion} {ps : List Parameter}
    {p : Predicate} (h : (compileOnTerm s field c ps).outcome = .ok p) (hlevel : p.level = .group) :
    p.expr.bare = [] := by
  obtain ⟨t, b, htarget, hb, rfl⟩ := compileOnTerm_ok h
  have ht : t.Listed := hs.resolveMarked (by rw [← Scope.filterTarget, htarget])
  have hagg : t.isAggregate = true := by
    by_contra hagg
    simp only [predicateOf, if_neg hagg] at hlevel
    cases hlevel
  exact Criterion.build_yields Expr.testable_bare (ht.bare_of_aggregate hagg) c b hb

/-- **A predicate of groups** reads nothing of them outside aggregates. -/
theorem compile_bare_of_group {s : Scope} (hs : s.Listed) {field : String} {c : Criterion} {ps : List Parameter}
    {p : Predicate} (h : (compile s field c ps).outcome = .ok p) (hlevel : p.level = .group) : p.expr.bare = [] := by
  unfold compile at h
  cases c with
  | negation inner =>
    simp only at h
    split at h
    · exact compileOnTerm_bare_of_group hs h hlevel
    · split at h
      · cases h
      · split at h
        · cases h
          cases hlevel
        · exact compileOnTerm_bare_of_group (s := s.opened) hs h hlevel
  | null | value | alternatives | numeric | enumerated | boolean | textMatch =>
    exact compileOnTerm_bare_of_group hs h hlevel

theorem compileAll_bare_of_group {s : Scope} (hs : s.Listed) {ps : List Parameter} {fs : List Filter}
    {preds : List Predicate} (h : (compileAll s ps fs).outcome = .ok preds) :
    ∀ p ∈ preds, p.level = .group → p.expr.bare = [] :=
  compileAll_forall (I := fun s => s.Listed) (P := fun _ p => p.level = .group → p.expr.bare = [])
    (fun f _ s ps hs => (grows_compile s f.path f.criterion ps).listed hs) (fun _ hp => hp)
    (fun _ _ _ _ _ hs hp => compile_bare_of_group hs hp) hs h

/-! ## Conditions of groups -/

namespace Restriction

theorem having_addPredicate (r : Restriction) (p : Predicate) :
    (r.addPredicate p).having = r.having ++ (if p.level = .group then [p.expr] else []) ++ p.countTest.toList := by
  unfold addPredicate
  cases p.level <;> simp

theorem bare_foldl_addPredicate : ∀ {ps : List Predicate} {r : Restriction}, (∀ e ∈ r.having, e.bare = []) →
    (∀ p ∈ ps, p.level = .group → p.expr.bare = []) → ∀ e ∈ (ps.foldl addPredicate r).having, e.bare = []
  | [], _, hr, _ => hr
  | p :: ps, r, hr, hps => by
    have hfirst : ∀ e ∈ (r.addPredicate p).having, e.bare = [] := by
      intro e he
      rw [having_addPredicate] at he
      rcases List.mem_append.1 he with he | he
      · rcases List.mem_append.1 he with he | he
        · exact hr e he
        · split at he
          · next hlevel =>
            rw [List.mem_singleton.1 he]
            exact hps p List.mem_cons_self hlevel
          · cases he
      · exact bare_countTest p e (Option.mem_toList.1 he)
    rw [List.foldl_cons]
    exact bare_foldl_addPredicate hfirst fun q hq => hps q (List.mem_cons_of_mem p hq)

/-- What the conditions of groups read bare is what mixed alternatives do. -/
theorem bare_having_iff {conditions : List Expr} {must may : List Predicate} (identity : Expr)
    (hmust : ∀ p ∈ must, p.level = .group → p.expr.bare = []) (Q : Column → Prop) :
    (∀ e ∈ ((ofConditions conditions).route must may identity).having, ∀ c ∈ e.bare, Q c) ↔
      ((∃ p ∈ may, p.level = .group) → ∀ p ∈ may, ∀ c ∈ p.expr.bare, Q c) := by
  have hrequired := bare_foldl_addPredicate (r := ofConditions conditions)
    (fun e he => (List.not_mem_nil he).elim) hmust
  rw [having_route]
  generalize must.foldl addPredicate (ofConditions conditions) = r at hrequired
  have hfree : ∀ e ∈ r.having, ∀ c ∈ e.bare, Q c := fun e he c hc => by
    rw [hrequired e he] at hc
    cases hc
  unfold addOptional
  cases hany : Expr.disjunction (may.map Predicate.expr) with
  | none =>
    cases may with
    | nil => exact iff_of_true hfree fun _ p hp => (List.not_mem_nil hp).elim
    | cons p ps => cases hany
  | some e =>
    have hread : (∀ c ∈ e.bare, Q c) ↔ ∀ p ∈ may, ∀ c ∈ p.expr.bare, Q c := by
      simp only [Expr.mem_bare_disjunction hany, List.mem_map]
      constructor
      · exact fun h p hp c hc => h c ⟨p.expr, ⟨p, hp, rfl⟩, hc⟩
      · rintro h c ⟨_, ⟨p, hp, rfl⟩, hc⟩
        exact h p hp c hc
    by_cases hmixed : ∃ p ∈ may, p.level = .group
    · have hgroup : may.any (fun p => p.level == .group) = true := by
        obtain ⟨p, hp, hlevel⟩ := hmixed
        exact List.any_eq_true.2 ⟨p, hp, by simp [hlevel]⟩
      simp only [hgroup, if_true, List.forall_mem_append, List.forall_mem_singleton, hread]
      exact ⟨fun h _ => h.2, fun h => ⟨hfree, h hmixed⟩⟩
    · have hgroup : may.any (fun p => p.level == .group) = false := by
        refine List.any_eq_false.2 fun p hp hlevel => hmixed ⟨p, hp, by simpa using hlevel⟩
      simp only [hgroup, Bool.false_eq_true, if_false]
      exact iff_of_true hfree fun h => absurd h hmixed

end Restriction

/-! ## The statements -/

section
variable {catalog : Catalog} {root : Entity} {p : Prepared}

/-- What the rows put out and are sorted by is settled by their grouping, which has the identity. -/
theorem DataParts.settled {r : Request} {data : Plan} {s : Scope} {orders : List OrderTerm}
    (hparts : DataParts r p data s orders) (hunder : p.Under catalog root dataLabel) (hscope : p.scope.Listed)
    (hprojection : ∀ x ∈ p.projection.getD [], x.2.Listed) (hgrouped : data.statement.groupBy ≠ []) :
    Expr.col dataLabel root.identityColumn ∈ data.statement.groupBy ∧
      ∀ e ∈ data.statement.items.map Item.expr ++ data.statement.orderBy.map SortKey.expr,
        e.SettledBy dataLabel data.statement.groupBy := by
  have hidentity : s.identity.expr = Expr.col dataLabel root.identityColumn := by
    rw [hparts.grows.identity, ← hunder.root, ← hunder.label]
    rfl
  have hrestriction : p.restriction.groupBy = if p.restriction.having.isEmpty then [] else [s.identity.expr] := by
    rw [hidentity]
    exact hunder.groupBy
  have hmem : ∀ e, e ∈ data.statement.groupBy ↔ e = s.identity.expr ∨
      (∃ x ∈ (outputOf p.scope p.projection).2.2, x.grouped = true ∧ x.expr = e) ∨
      ∃ o ∈ orders, o.term.needsGrouping = true ∧ o.term.expr = e := fun e => by
    rw [hparts.groupBy] at hgrouped ⊢
    exact mem_dataGrouping_iff hrestriction hgrouped
  refine ⟨(hmem _).2 (.inl hidentity.symm), fun e he => ?_⟩
  rcases List.mem_append.1 he with he | he
  · -- DISTINCT, for which sort keys are put out, goes with no grouping
    obtain ⟨extra, hitems, hextra⟩ := hparts.items
    rw [hparts.distinct, List.isEmpty_eq_false_iff.2 hgrouped, Bool.and_false, if_neg Bool.false_ne_true] at hextra
    rw [hitems, hextra, List.append_nil] at he
    obtain ⟨i, hi, rfl⟩ := List.mem_map.1 he
    cases hproj : p.projection with
    | none =>
      rw [hproj] at hi
      obtain ⟨c, -, rfl⟩ := List.mem_map.1 hi
      intro x hx
      rw [List.mem_singleton.1 hx]
      exact .inl hunder.label
    | some fields =>
      rw [hproj] at hi hprojection hmem
      obtain ⟨f, hf, rfl⟩ := List.mem_map.1 hi
      exact (hprojection f hf).settled fun hneeds =>
        (hmem _).2 (.inr (.inl ⟨_, List.mem_map_of_mem hf, hneeds, rfl⟩))
  · rw [hparts.orderBy, List.map_map] at he
    obtain ⟨o, ho, rfl⟩ := List.mem_map.1 he
    have hlisted := orderTerms_forall (I := fun s => s.Listed) (P := fun _ o => o.term.Listed)
      (fun o _ s hs => (Scope.grows_readTarget s o.path).listed hs) (fun _ ho => ho)
      (fun o _ _ _ hs ht => (hs.resolveMarked ht).collapse o.ascending) hscope hparts.ordering
    exact (hlisted o ho).settled fun hneeds => (hmem _).2 (.inr (.inr ⟨o, ho, hneeds, rfl⟩))

theorem DataParts.groupsValidly_iff_having {r : Request} {data : Plan} {s : Scope} {orders : List OrderTerm}
    (hparts : DataParts r p data s orders)
    (hsettled : data.statement.groupBy ≠ [] →
      ∀ e ∈ data.statement.items.map Item.expr ++ data.statement.orderBy.map SortKey.expr,
        e.SettledBy dataLabel data.statement.groupBy) :
    data.statement.GroupsValidly ↔ ∀ e ∈ p.restriction.having, e.SettledBy dataLabel data.statement.groupBy := by
  unfold Statement.GroupsValidly
  rw [hparts.label, hparts.having]
  constructor
  · intro hvalid e he
    have hgrouped : data.statement.groupBy ≠ [] := by
      rw [hparts.groupBy]
      exact List.ne_nil_of_mem (mem_dataGrouping (List.ne_nil_of_mem he))
    exact hvalid hgrouped e (by simp [he])
  · intro hvalid hgrouped e he
    rcases List.mem_append.1 he with he | he
    · rcases List.mem_append.1 he with he | he
      · exact hsettled hgrouped e (List.mem_append_left _ he)
      · exact hvalid e he
    · exact hsettled hgrouped e (List.mem_append_right _ he)

theorem groupsValidly_countPlanOver {label : String} (hunder : p.Under catalog root label) (caps : Capabilities)
    (joins : List Join) (parameters : List Parameter) :
    (∀ e ∈ (countPlanOver root caps label joins p.restriction parameters).statement.conditions,
      ∀ q ∈ e.subqueries, q.GroupsValidly) ↔ ∀ e ∈ p.restriction.having, ∀ c ∈ e.bare, c.source = label := by
  have hsubquery : ∀ conditions, (identitySubquery root label joins conditions p.restriction).GroupsValidly ↔
      ∀ e ∈ p.restriction.having, ∀ c ∈ e.bare, c.source = label := by
    intro conditions
    unfold identitySubquery Subquery.GroupsValidly
    rw [hunder.groupBy]
    by_cases hhaving : p.restriction.having = []
    · simp [hhaving]
    · rw [if_neg (by simpa using hhaving)]
      have hroot : ∀ c : Column, c.source = label ∨ Expr.column c ∈ [Expr.col label root.identityColumn] ↔
          c.source = label := fun c => by
        rw [List.mem_singleton, Expr.col, Expr.column.injEq]
        exact or_iff_left_of_imp fun h => by rw [h]
      simp only [ne_eq, List.cons_ne_nil, not_false_eq_true, forall_const, List.forall_mem_cons, Expr.SettledBy, hroot]
      exact and_iff_right fun c hc => by rw [List.mem_singleton.1 hc]
  have hconditions : (countPlanOver root caps label joins p.restriction parameters).statement.conditions =
      [countCondition root caps.countIdiom label joins p.restriction] := rfl
  rw [hconditions, List.forall_mem_singleton]
  unfold countCondition
  cases caps.countIdiom with
  | inQuery =>
    have hone : (Expr.inQuery (Expr.col countLabel root.identityColumn) (identitySubquery root label joins
        p.restriction.conditions p.restriction)).subqueries =
          [identitySubquery root label joins p.restriction.conditions p.restriction] := rfl
    simp only [hone, List.forall_mem_singleton, hsubquery]
  | existsQuery => simp only [Expr.subqueries, List.forall_mem_singleton, hsubquery]

theorem groupsValidly_countPlan {caps : Capabilities} {r : Request} {recipe : Option Recipe} {data count : Plan}
    (hprepare : (prepare catalog root r recipe dataLabel).2 = .ok p)
    (h : (countPlan catalog root caps r recipe data p).2 = .ok count) :
    (∀ e ∈ count.statement.conditions, ∀ q ∈ e.subqueries, q.GroupsValidly) ↔
      ∀ e ∈ p.restriction.having, ∀ c ∈ e.bare, c.source = dataLabel := by
  have hunder := under_prepare hprepare
  rcases countPlan_ok hprepare h with ⟨hempty, hstatement, -⟩ | ⟨-, -, rfl⟩ | ⟨-, -, hagain⟩
  · rw [hstatement, (hunder.isEmpty_iff.1 hempty).2]
    exact iff_of_true (fun e he => (List.not_mem_nil he).elim) fun e he => (List.not_mem_nil he).elim
  · exact groupsValidly_countPlanOver hunder caps [] _
  · obtain ⟨hprepared, rfl⟩ := hagain exchange keepsBehind_exchange exchange_dataLabel
    rw [groupsValidly_countPlanOver (under_prepare hprepared)]
    have hlabel : ∀ c : Column, (c.relabel exchange).source = subqueryLabel ↔ c.source = dataLabel := fun c => by
      rw [← exchange_dataLabel]
      exact exchange_injective.eq_iff
    simp [Prepared.relabel, Restriction.relabel, Expr.bare_relabel, hlabel]

/-- **Grouped statements are valid just if mixed alternatives are.**  What is put out or sorted by is always settled by
the grouping.  The conditions of groups are so just if, where one of the optional predicates is of groups, each of them
reads of its groups what is settled: for the rows what their grouping lists, for the total, which is grouped by the
identity alone, columns of the root. -/
theorem groupsValidly_iff {caps : Capabilities} {r : Request} {wantCount : Bool} {recipe : Option Recipe}
    {requireProjection : Bool} {plan : PagePlan}
    (h : (PagePlan.build catalog root caps r wantCount recipe requireProjection).2 = .ok plan) :
    ∃ must may, r.CompilesTo (recipeScope catalog root recipe dataLabel) must may ∧
      (plan.data.statement.groupBy ≠ [] →
        Expr.col dataLabel root.identityColumn ∈ plan.data.statement.groupBy ∧
        ∀ e ∈ plan.data.statement.items.map Item.expr ++ plan.data.statement.orderBy.map SortKey.expr,
          e.SettledBy dataLabel plan.data.statement.groupBy) ∧
      (plan.data.statement.GroupsValidly ↔
        ((∃ p ∈ may, p.level = .group) → ∀ p ∈ may, p.expr.SettledBy dataLabel plan.data.statement.groupBy)) ∧
      ∀ count ∈ plan.count, (∀ e ∈ count.statement.conditions, ∀ q ∈ e.subqueries, q.GroupsValidly) ↔
        ((∃ p ∈ may, p.level = .group) → ∀ p ∈ may, ∀ c ∈ p.expr.bare, c.source = dataLabel) := by
  obtain ⟨p, hprepare, hdata, hcount⟩ := build_ok h
  obtain ⟨s, orders, hparts⟩ := dataPlan_ok hdata
  have hunder := under_prepare hprepare
  obtain ⟨must, may, conditions, identity, hcriteria, hstart, hscope, hprojection, hrestriction⟩ :=
    prepare_compiled hprepare
  have hmust := compileAll_bare_of_group hstart hcriteria.1
  have hhaving : ∀ Q : Column → Prop, (∀ e ∈ p.restriction.having, ∀ c ∈ e.bare, Q c) ↔
      ((∃ p ∈ may, p.level = .group) → ∀ p ∈ may, ∀ c ∈ p.expr.bare, Q c) := by
    rw [hrestriction]
    exact Restriction.bare_having_iff identity hmust
  have hsettled := hparts.settled hunder hscope hprojection
  refine ⟨must, may, hcriteria, hsettled, ?_, fun count hsome => ?_⟩
  · exact (hparts.groupsValidly_iff_having fun hgrouped => (hsettled hgrouped).2).trans
      (hhaving fun c => c.source = dataLabel ∨ Expr.column c ∈ plan.data.statement.groupBy)
  · rw [← hhaving]
    cases wantCount with
    | false =>
      rw [count_eq_none h] at hsome
      cases hsome
    | true =>
      obtain ⟨count', hsome', hok⟩ := hcount rfl
      rw [hsome'] at hsome
      cases hsome
      exact groupsValidly_countPlan hprepare hok

end

open Sample in
/-- Workers by the number of their tasks or their own name: all that is read of a worker's rows is settled. -/
theorem busy_or_ada_valid :
    ∃ plan count must may,
      (PagePlan.build firm worker Backend.postgres.capabilities (busyOr "name" (.value (.text "Ada"))) true
        (some taskCount) true).2 = .ok plan ∧
      plan.count = some count ∧
      (busyOr "name" (.value (.text "Ada"))).CompilesTo (recipeScope firm worker (some taskCount) dataLabel) must may ∧
      plan.data.statement.groupBy ≠ [] ∧
      (∀ e ∈ plan.data.statement.items.map Item.expr ++ plan.data.statement.orderBy.map SortKey.expr,
        e.SettledBy dataLabel plan.data.statement.groupBy) ∧
      plan.data.statement.GroupsValidly ∧
      ((∃ p ∈ may, p.level = .group) → ∀ p ∈ may, p.expr.SettledBy dataLabel plan.data.statement.groupBy) ∧
      (∀ e ∈ count.statement.conditions, ∀ q ∈ e.subqueries, q.GroupsValidly) ∧
      ((∃ p ∈ may, p.level = .group) → ∀ p ∈ may, ∀ c ∈ p.expr.bare, c.source = dataLabel) := by
  obtain ⟨plan, hplan, hgrouped, hvalid, hcounted⟩ := exists_ok
    (P := fun plan => plan.data.statement.groupBy ≠ [] ∧ plan.data.statement.GroupsValidly ∧
      plan.count.map (fun count => decide (∀ e ∈ count.statement.conditions, ∀ q ∈ e.subqueries, q.GroupsValidly)) =
        some true)
    (x := (PagePlan.build firm worker Backend.postgres.capabilities (busyOr "name" (.value (.text "Ada"))) true
      (some taskCount) true).2) (by decide +kernel)
  obtain ⟨count, hsome, hcount⟩ := Option.map_eq_some_iff.1 hcounted
  obtain ⟨must, may, hcriteria, hsettled, hiff, hcountIff⟩ := groupsValidly_iff hplan
  have hsubquery := of_decide_eq_true hcount
  exact ⟨plan, count, must, may, hplan, hsome, hcriteria, hgrouped, (hsettled hgrouped).2, hvalid, hiff.1 hvalid,
    hsubquery, (hcountIff count hsome).1 hsubquery⟩

open Sample in
/-- Workers by the number of their tasks or the title of their team: the title is a condition of groups, and neither the
rows nor the total are grouped by it. -/
theorem busy_or_red_invalid :
    ∃ plan count,
      (PagePlan.build firm worker Backend.postgres.capabilities (busyOr "team.title" (.value (.text "Red"))) true
        (some taskCount) true).2 = .ok plan ∧
      plan.count = some count ∧ ¬plan.data.statement.GroupsValidly ∧
      ¬∀ e ∈ count.statement.conditions, ∀ q ∈ e.subqueries, q.GroupsValidly := by
  obtain ⟨plan, hplan, hinvalid, hcounted⟩ := exists_ok
    (P := fun plan => ¬plan.data.statement.GroupsValidly ∧
      plan.count.map (fun count => decide (∀ e ∈ count.statement.conditions, ∀ q ∈ e.subqueries, q.GroupsValidly)) =
        some false)
    (x := (PagePlan.build firm worker Backend.postgres.capabilities (busyOr "team.title" (.value (.text "Red"))) true
      (some taskCount) true).2) (by decide +kernel)
  obtain ⟨count, hsome, hcount⟩ := Option.map_eq_some_iff.1 hcounted
  exact ⟨plan, count, hplan, hsome, hinvalid, of_decide_eq_false hcount⟩

end PageQuery
