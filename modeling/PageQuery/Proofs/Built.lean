import PageQuery.Proofs.Recompile
/-!
# What a finished build consists of

A build that succeeds prepared its root once under the label of the rows; the statement of the rows is that preparation
with the joins of the ordering, and the total is of everything, or of the same restriction copied, or of the request
prepared once more.
-/
namespace PageQuery

theorem exists_ok {ε α : Type} {P : α → Prop} [DecidablePred P] {x : Except ε α}
    (h : x.toOption.any (fun a => decide (P a)) = true) : ∃ a, x = .ok a ∧ P a := by
  cases x with
  | error e => cases h
  | ok a => exact ⟨a, rfl, of_decide_eq_true h⟩

theorem exists_ok_of_isOk {ε α : Type} {x : Except ε α} (h : x.isOk = true) : ∃ a, x = .ok a := by
  cases x with
  | error e => cases h
  | ok a => exact ⟨a, rfl⟩

/-! ## Preparations -/

/-- The parts of a preparation that its root and label decide. -/
structure Prepared.Under (p : Prepared) (catalog : Catalog) (root : Entity) (label : String) : Prop where
  /-- Rows are grouped by the identity when groups are restricted, and by nothing otherwise. -/
  groupBy : p.restriction.groupBy =
    if p.restriction.having.isEmpty then [] else [Expr.col label root.identityColumn]
  catalog : p.scope.catalog = catalog
  root : p.scope.root = root
  label : p.scope.label = label

/-- The predicates that the criteria of a request are compiled to in a scope: the required ones, and after them the
optional ones in the scope that those left. -/
def Request.CompilesTo (r : Request) (s : Scope) (must may : List Predicate) : Prop :=
  (compileAll s [] r.required).outcome = .ok must ∧
    (compileAll (compileAll s [] r.required).scope (compileAll s [] r.required).parameters r.optional).outcome = .ok may

theorem restrict_ok {s : Scope} {r : Request} {projection : Option Projection} {conditions : List Expr}
    {p : Prepared} (h : (restrict s r projection conditions).2 = .ok p) :
    ∃ must may, (compileAll s [] r.required).outcome = .ok must ∧
      (compileAll (compileAll s [] r.required).scope (compileAll s [] r.required).parameters r.optional).outcome =
        .ok may ∧
      p = ⟨(compileAll (compileAll s [] r.required).scope (compileAll s [] r.required).parameters r.optional).scope,
        projection, (Restriction.ofConditions conditions).route must may s.identity.expr,
        (compileAll (compileAll s [] r.required).scope
          (compileAll s [] r.required).parameters r.optional).parameters⟩ := by
  unfold restrict at h
  have hgrows := (grows_compileAll s [] r.required).trans (grows_compileAll (compileAll s [] r.required).scope
    (compileAll s [] r.required).parameters r.optional)
  cases hmust : (compileAll s [] r.required).outcome with
  | error e =>
    simp only [hmust] at h
    cases h
  | ok must =>
    simp only [hmust] at h
    cases hmay : (compileAll (compileAll s [] r.required).scope (compileAll s [] r.required).parameters
        r.optional).outcome with
    | error e =>
      simp only [hmay] at h
      cases h
    | ok may =>
      simp only [hmay, hgrows.identity, Except.ok.injEq] at h
      exact ⟨must, may, rfl, rfl, h.symm⟩

theorem grows_restrict {s : Scope} {r : Request} {projection : Option Projection} {conditions : List Expr}
    {p : Prepared} (h : (restrict s r projection conditions).2 = .ok p) :
    p.projection = projection ∧ s.Grows p.scope := by
  obtain ⟨must, may, -, -, rfl⟩ := restrict_ok h
  exact ⟨rfl, (grows_compileAll _ _ _).trans (grows_compileAll _ _ _)⟩

theorem under_restrict {s : Scope} {r : Request} {projection : Option Projection} {conditions : List Expr}
    {p : Prepared} (h : (restrict s r projection conditions).2 = .ok p) : p.Under s.catalog s.root s.label := by
  obtain ⟨-, hgrows⟩ := grows_restrict h
  obtain ⟨must, may, -, -, rfl⟩ := restrict_ok h
  exact ⟨Restriction.groupBy_route rfl must may _, hgrows.catalog, hgrows.root, hgrows.label⟩

theorem prepare_ok {catalog : Catalog} {root : Entity} {r : Request} {recipe : Option Recipe} {label : String}
    {p : Prepared} (h : (prepare catalog root r recipe label).2 = .ok p) :
    (recipe = none ∧ (restrict (Scope.new catalog root label) r none []).2 = .ok p) ∨
    ∃ x st, recipe = some x ∧ RunState.run (Scope.new catalog root label) x = (st, none) ∧
      (restrict (st.scope.withFields (x.projection? st)) r (x.projection? st) st.conditions).2 = .ok p := by
  unfold prepare at h
  cases recipe with
  | none => exact .inl ⟨rfl, h⟩
  | some x =>
    simp only at h
    rcases hrun : RunState.run (Scope.new catalog root label) x with ⟨st, _ | e⟩
    · rw [hrun] at h
      exact .inr ⟨x, st, rfl, hrun, h⟩
    · rw [hrun] at h
      cases h

theorem under_prepare {catalog : Catalog} {root : Entity} {r : Request} {recipe : Option Recipe} {label : String}
    {p : Prepared} (h : (prepare catalog root r recipe label).2 = .ok p) : p.Under catalog root label := by
  rcases prepare_ok h with ⟨-, h⟩ | ⟨x, st, -, hrun, h⟩
  · exact under_restrict h
  · have hgrows := RunState.grows_run (Scope.new catalog root label) x
    rw [hrun] at hgrows
    have hunder := under_restrict h
    have hcatalog : (st.scope.withFields (x.projection? st)).catalog = catalog := hgrows.catalog
    have hroot : (st.scope.withFields (x.projection? st)).root = root := hgrows.root
    have hlabel : (st.scope.withFields (x.projection? st)).label = label := hgrows.label
    rwa [hcatalog, hroot, hlabel] at hunder

/-! ## Plans -/

/-- The statement of the rows over a preparation, with the scope and the terms of its ordering. -/
structure DataParts (r : Request) (p : Prepared) (data : Plan) (s : Scope) (orders : List OrderTerm) : Prop where
  ordering : orderTerms p.scope r = (s, .ok orders)
  items : ∃ extra, data.statement.items = (outputOf p.scope p.projection).1 ++ extra ∧
    extra = if data.statement.distinct then extraItems (outputOf p.scope p.projection).2.2 0 orders else []
  distinct : data.statement.distinct = (s.hasToManyJoins && data.statement.groupBy.isEmpty)
  table : data.statement.table = s.root.table
  label : data.statement.label = dataLabel
  joins : data.statement.joins = s.joinList
  conditions : data.statement.conditions = p.restriction.conditions
  groupBy : data.statement.groupBy =
    dataGrouping s.identity.expr p.restriction p.projection (outputOf p.scope p.projection).2.2 orders
  having : data.statement.having = p.restriction.having
  orderBy : data.statement.orderBy = orders.map fun o => ⟨o.term.expr, o.ascending⟩
  parameters : data.parameters = p.parameters
  joined : data.profile.joined = s.hasJoins

theorem dataPlan_ok {r : Request} {p : Prepared} {data : Plan} (h : dataPlan r p = .ok data) :
    ∃ s orders, DataParts r p data s orders := by
  unfold dataPlan at h
  rcases ho : orderTerms p.scope r with ⟨s, e | orders⟩
  · rw [ho] at h
    cases h
  · rw [ho] at h
    simp only [Except.ok.injEq] at h
    subst h
    exact ⟨s, orders, ho, ⟨_, rfl, rfl⟩, rfl, rfl, rfl, rfl, rfl, rfl, rfl, rfl, rfl, rfl⟩

theorem DataParts.grows {r : Request} {p : Prepared} {data : Plan} {s : Scope} {orders : List OrderTerm}
    (hparts : DataParts r p data s orders) : p.scope.Grows s := by
  have hgrows := grows_orderTerms p.scope r
  rwa [hparts.ordering] at hgrows

/-! ## Grouping -/

theorem mem_foldl_addGrouping {e : Expr} : ∀ {es groupBy : List Expr},
    e ∈ es.foldl addGrouping groupBy ↔ e ∈ groupBy ∨ e ∈ es
  | [], _ => by simp
  | x :: es, groupBy => by
    rw [List.foldl_cons, mem_foldl_addGrouping, mem_addGrouping, List.mem_cons, or_assoc]

theorem of_mem_dataGrouping {identity e : Expr} {restriction : Restriction} {projection : Option Projection}
    {selected : List Selected} {orders : List OrderTerm}
    (h : e ∈ dataGrouping identity restriction projection selected orders) :
    e ∈ restriction.groupBy ∨ e = identity ∨ (∃ x ∈ selected, x.expr = e) ∨ ∃ o ∈ orders, o.term.expr = e := by
  unfold dataGrouping at h
  simp only at h
  split at h
  · rw [mem_foldl_addGrouping, mem_addGrouping, List.mem_append, List.mem_map, List.mem_map] at h
    rcases h with (h | h) | ⟨x, hx, hxe⟩ | ⟨o, ho, hoe⟩
    · exact .inl h
    · exact .inr (.inl h)
    · exact .inr (.inr (.inl ⟨x, (List.mem_filter.1 hx).1, hxe⟩))
    · exact .inr (.inr (.inr ⟨o, (List.mem_filter.1 ho).1, hoe⟩))
  · exact .inl h

theorem mem_dataGrouping {identity : Expr} {restriction : Restriction} {projection : Option Projection}
    {selected : List Selected} {orders : List OrderTerm} (h : restriction.having ≠ []) :
    identity ∈ dataGrouping identity restriction projection selected orders := by
  have hfull : restriction.having.isEmpty = false := by
    simpa using h
  unfold dataGrouping
  rw [hfull]
  exact mem_foldl_addGrouping.2 (.inl (mem_addGrouping.2 (.inr rfl)))

theorem mem_dataGrouping_iff {identity e : Expr} {restriction : Restriction} {projection : Option Projection}
    {selected : List Selected} {orders : List OrderTerm}
    (hrestriction : restriction.groupBy = if restriction.having.isEmpty then [] else [identity])
    (hsome : dataGrouping identity restriction projection selected orders ≠ []) :
    e ∈ dataGrouping identity restriction projection selected orders ↔
      e = identity ∨ (∃ x ∈ selected, x.grouped = true ∧ x.expr = e) ∨
        ∃ o ∈ orders, o.term.needsGrouping = true ∧ o.term.expr = e := by
  unfold dataGrouping at hsome ⊢
  simp only at hsome ⊢
  split at hsome
  · next hcond =>
    have hidentity : (e ∈ (if restriction.having.isEmpty then [] else [identity]) ∨ e = identity) ↔ e = identity := by
      split <;> simp
    rw [if_pos hcond, mem_foldl_addGrouping, mem_addGrouping, List.mem_append, hrestriction, hidentity]
    simp [and_assoc]
  · -- without conditions of groups the restriction groups by nothing
    next hcond =>
    rw [Bool.or_eq_true, not_or, Bool.not_eq_true', Bool.not_eq_false] at hcond
    rw [hrestriction, if_pos hcond.1] at hsome
    exact absurd rfl hsome

theorem mem_extraItems {selected : List Selected} {e : Expr} : ∀ (n : Nat) (orders : List OrderTerm),
    e ∈ (extraItems selected n orders).map Item.expr ↔
      ∃ o ∈ orders, o.term.expr = e ∧ ∀ x ∈ selected, x.expr ≠ e
  | _, [] => by simp [extraItems]
  | n, o :: os => by
    have hrest := @mem_extraItems selected e (n + 1) os
    by_cases hsel : selected.any (fun x => decide (x.expr = o.term.expr)) = true
    · rw [extraItems, if_pos hsel, hrest]
      obtain ⟨x, hx, hxo⟩ := List.any_eq_true.1 hsel
      constructor
      · rintro ⟨o', ho', h⟩
        exact ⟨o', List.mem_cons_of_mem o ho', h⟩
      · rintro ⟨o', ho', rfl, hno⟩
        rcases List.mem_cons.1 ho' with rfl | ho'
        · exact absurd (of_decide_eq_true hxo) (hno x hx)
        · exact ⟨o', ho', rfl, hno⟩
    · rw [extraItems, if_neg hsel, List.map_cons, List.mem_cons, hrest]
      have hnone : ∀ x ∈ selected, x.expr ≠ o.term.expr := fun x hx hxo =>
        hsel (List.any_eq_true.2 ⟨x, hx, decide_eq_true hxo⟩)
      constructor
      · rintro (rfl | ⟨o', ho', h⟩)
        · exact ⟨o, List.mem_cons_self, rfl, hnone⟩
        · exact ⟨o', List.mem_cons_of_mem o ho', h⟩
      · rintro ⟨o', ho', rfl, hno⟩
        rcases List.mem_cons.1 ho' with rfl | ho'
        · exact .inl rfl
        · exact .inr ⟨o', ho', rfl, hno⟩

/-! ## Builds -/

/-- **A finished build, unpacked.** -/
theorem buildFor_ok {catalog : Catalog} {root : Entity} {caps : Capabilities} {r : Request} {wantCount : Bool}
    {builder : Option Builder} {requireProjection : Bool} {plan : PagePlan}
    (h : (PagePlan.buildFor catalog root caps r wantCount builder requireProjection).2 = .ok plan) :
    ∃ p, (prepare catalog root r (builder.map (· dataLabel)) dataLabel).2 = .ok p ∧ dataPlan r p = .ok plan.data ∧
      (wantCount = false → plan.count = none) ∧
      (wantCount = true → ∃ count, plan.count = some count ∧
        (countPlan catalog root caps r (builder.map (· subqueryLabel)) plan.data p).2 = .ok count) := by
  unfold PagePlan.buildFor at h
  rcases hp : prepare catalog root r (builder.map (· dataLabel)) dataLabel with ⟨journal, e | p⟩
  · rw [hp] at h
    cases h
  · rw [hp] at h
    simp only at h
    by_cases hreq : (requireProjection && p.projection.isNone) = true
    · rw [if_pos hreq] at h
      cases h
    · rw [if_neg hreq] at h
      cases hd : dataPlan r p with
      | error e =>
        rw [hd] at h
        cases h
      | ok data =>
        rw [hd] at h
        simp only at h
        refine ⟨p, by rw [hp], ?_⟩
        cases wantCount with
        | true =>
          rw [if_pos rfl] at h
          rcases hc : (countPlan catalog root caps r (builder.map (· subqueryLabel)) data p).2 with e | count
          · rw [hc] at h
            cases h
          · rw [hc] at h
            cases h
            exact ⟨hd, fun hno => absurd hno.symm Bool.false_ne_true, fun _ => ⟨count, rfl, hc⟩⟩
        | false =>
          cases h
          exact ⟨hd, fun _ => rfl, fun hno => absurd hno Bool.false_ne_true⟩

theorem build_ok {catalog : Catalog} {root : Entity} {caps : Capabilities} {r : Request} {wantCount : Bool}
    {recipe : Option Recipe} {requireProjection : Bool} {plan : PagePlan}
    (h : (PagePlan.build catalog root caps r wantCount recipe requireProjection).2 = .ok plan) :
    ∃ p, (prepare catalog root r recipe dataLabel).2 = .ok p ∧ dataPlan r p = .ok plan.data ∧
      (wantCount = true → ∃ count, plan.count = some count ∧
        (countPlan catalog root caps r recipe plan.data p).2 = .ok count) := by
  obtain ⟨p, hp, hdata, -, hcount⟩ := buildFor_ok h
  simp only [Recipe.map_always] at hp hcount
  exact ⟨p, hp, hdata, hcount⟩

theorem count_eq_none {catalog : Catalog} {root : Entity} {caps : Capabilities} {r : Request} {recipe : Option Recipe}
    {requireProjection : Bool} {plan : PagePlan}
    (h : (PagePlan.build catalog root caps r false recipe requireProjection).2 = .ok plan) : plan.count = none := by
  obtain ⟨-, -, -, hnone, -⟩ := buildFor_ok h
  exact hnone rfl

theorem Prepared.Under.isEmpty_iff {p : Prepared} {catalog : Catalog} {root : Entity} {label : String}
    (hp : p.Under catalog root label) :
    p.restriction.isEmpty = true ↔ p.restriction.conditions = [] ∧ p.restriction.having = [] := by
  have hgroupBy := hp.groupBy
  unfold Restriction.isEmpty
  rw [Bool.and_eq_true, Bool.and_eq_true, List.isEmpty_iff, List.isEmpty_iff, List.isEmpty_iff]
  constructor
  · rintro ⟨⟨hconditions, hhaving⟩, -⟩
    exact ⟨hconditions, hhaving⟩
  · rintro ⟨hconditions, hhaving⟩
    rw [if_pos (List.isEmpty_iff.2 hhaving)] at hgroupBy
    exact ⟨⟨hconditions, hhaving⟩, hgroupBy⟩

/-- **A finished total, unpacked**: of everything, over the preparation of the rows as it stands, or over a preparation
under the label `s`. -/
theorem countPlan_cases {catalog : Catalog} {root : Entity} {caps : Capabilities} {r : Request} {again : Option Recipe}
    {data count : Plan} {p : Prepared} (h : (countPlan catalog root caps r again data p).2 = .ok count) :
    (p.restriction.isEmpty = true ∧ count.statement = countStatement root [] ∧ count.parameters = []) ∨
    (p.restriction.isEmpty = false ∧ (caps.copiesRestriction && !data.profile.joined) = true ∧
      count = countPlanOver root caps dataLabel [] p.restriction p.parameters) ∨
    (p.restriction.isEmpty = false ∧ (caps.copiesRestriction && !data.profile.joined) = false ∧
      ∃ q, (prepare catalog root r again subqueryLabel).2 = .ok q ∧
        count = countPlanOver root caps subqueryLabel q.scope.joinList q.restriction q.parameters) := by
  unfold countPlan at h
  cases hempty : p.restriction.isEmpty with
  | true =>
    rw [if_pos hempty] at h
    cases h
    exact .inl ⟨rfl, rfl, rfl⟩
  | false =>
    rw [if_neg (by rw [hempty]; exact Bool.false_ne_true)] at h
    cases hcopies : caps.copiesRestriction && !data.profile.joined with
    | true =>
      rw [if_pos hcopies] at h
      cases h
      exact .inr (.inl ⟨rfl, rfl, rfl⟩)
    | false =>
      rw [if_neg (by rw [hcopies]; exact Bool.false_ne_true)] at h
      refine .inr (.inr ⟨rfl, rfl, ?_⟩)
      rcases hq : (prepare catalog root r again subqueryLabel).2 with e | q
      · simp only [hq, Except.map] at h
        cases h
      · simp only [hq, Except.map, Except.ok.injEq] at h
        exact ⟨q, rfl, h.symm⟩

/-- What is prepared anew with the recipe of the rows is their preparation under the other label, `f` being any change
of labels that moves the one label to the other. -/
theorem prepare_moved {f : String → String} (hf : KeepsBehind f dataLabel) (hmoves : f dataLabel = subqueryLabel)
    {catalog : Catalog} {root : Entity} {r : Request} {recipe : Option Recipe} {p : Prepared}
    (hp : (prepare catalog root r recipe dataLabel).2 = .ok p) :
    (prepare catalog root r recipe subqueryLabel).2 = .ok (p.relabel f) := by
  rw [← hmoves, prepare_relabel hf, hp]
  rfl

theorem countPlan_ok {catalog : Catalog} {root : Entity} {caps : Capabilities} {r : Request} {recipe : Option Recipe}
    {data count : Plan} {p : Prepared} (hp : (prepare catalog root r recipe dataLabel).2 = .ok p)
    (h : (countPlan catalog root caps r recipe data p).2 = .ok count) :
    (p.restriction.isEmpty = true ∧ count.statement = countStatement root [] ∧ count.parameters = []) ∨
    (p.restriction.isEmpty = false ∧ (caps.copiesRestriction && !data.profile.joined) = true ∧
      count = countPlanOver root caps dataLabel [] p.restriction p.parameters) ∨
    (p.restriction.isEmpty = false ∧ (caps.copiesRestriction && !data.profile.joined) = false ∧
      ∀ f, KeepsBehind f dataLabel → f dataLabel = subqueryLabel →
        (prepare catalog root r recipe subqueryLabel).2 = .ok (p.relabel f) ∧
        count = countPlanOver root caps subqueryLabel (p.relabel f).scope.joinList (p.relabel f).restriction
          p.parameters) := by
  rcases countPlan_cases h with hnone | hcopy | ⟨hfull, hanew, q, hq, rfl⟩
  · exact .inl hnone
  · exact .inr (.inl hcopy)
  · refine .inr (.inr ⟨hfull, hanew, fun f hf hmoves => ?_⟩)
    have hagain := prepare_moved hf hmoves hp
    rw [hq] at hagain
    cases hagain
    exact ⟨hq, rfl⟩

end PageQuery
