import PageQuery.Proofs.OneRow
/-!
# The statement of the rows is well formed

Whether rows are merged, what they are grouped by, which sort keys are put out besides and which range is taken are
decided one after the other, by where the terms come from and which joins there are.  The decisions fit: a statement is
merged or grouped and never both, functions of groups and conditions of groups come with a grouping by the identity,
and wherever a to-many join repeats rows they are put together again and the range says where it starts and ends.
-/
namespace PageQuery

/-- What a statement about the rows of one entity must keep to, `identity` telling the rows apart. -/
structure Statement.WellFormed (identity : Expr) (q : Statement) : Prop where
  /-- Rows that are merged are not grouped, show nothing of groups, and are sorted by what they show. -/
  merged : q.distinct = true → q.groupBy = [] ∧ q.having = [] ∧
    (∀ e ∈ q.items.map Item.expr ++ q.orderBy.map SortKey.expr, e.isAggregate = false) ∧
    ∀ k ∈ q.orderBy, k.expr ∈ q.items.map Item.expr
  /-- Functions of groups are of groups by the identity first, and each expression is listed once. -/
  grouped : ∀ e ∈ q.items.map Item.expr ++ q.having ++ q.orderBy.map SortKey.expr, e.isAggregate = true →
    [identity] <+: q.groupBy ∧ q.groupBy.Nodup
  restricted : q.having ≠ [] → q.groupBy ≠ []
  toMany : (∃ j ∈ q.joins, j.toMany = true) →
    (q.distinct = true ∨ q.groupBy ≠ []) ∧ q.limit.isSome = true ∧ q.offset.isSome = true
  range : q.offset.isSome = true → q.limit.isSome = true

/-! ## The grouping -/

theorem prefix_foldl_addGrouping (es : List Expr) : ∀ groupBy : List Expr,
    groupBy <+: es.foldl addGrouping groupBy := by
  induction es with
  | nil => exact fun _ => List.prefix_rfl
  | cons e es ih =>
    intro groupBy
    refine List.IsPrefix.trans ?_ (ih (addGrouping groupBy e))
    unfold addGrouping
    split
    · exact List.prefix_rfl
    · exact List.prefix_append _ _

theorem nodup_foldl_addGrouping (es : List Expr) : ∀ {groupBy : List Expr}, groupBy.Nodup →
    (es.foldl addGrouping groupBy).Nodup := by
  induction es with
  | nil => exact fun h => h
  | cons e es ih => exact fun h => ih (nodup_addGrouping e h)

theorem dataGrouping_cases {identity : Expr} {restriction : Restriction} (projection : Option Projection)
    (selected : List Selected) (orders : List OrderTerm)
    (hrestriction : restriction.groupBy = if restriction.having.isEmpty then [] else [identity]) :
    dataGrouping identity restriction projection selected orders = [] ∨
      [identity] <+: dataGrouping identity restriction projection selected orders ∧
        (dataGrouping identity restriction projection selected orders).Nodup := by
  have hfirst : addGrouping restriction.groupBy identity = [identity] := by
    rw [hrestriction]
    split <;> simp [addGrouping]
  unfold dataGrouping
  simp only
  split
  · rw [hfirst]
    exact .inr ⟨prefix_foldl_addGrouping _ _, nodup_foldl_addGrouping _ (List.nodup_singleton _)⟩
  · next hcond =>
    rw [Bool.or_eq_true, not_or, Bool.not_eq_true', Bool.not_eq_false] at hcond
    rw [hrestriction, if_pos hcond.1]
    exact .inl rfl

/-! ## The other decisions -/

section
variable {r : Request} {p : Prepared} {data : Plan} {s : Scope} {orders : List OrderTerm}

/-- The range of the rows: from the offset asked for, if there is one or rows may be repeated, and without an end only
where there is no offset. -/
theorem DataParts.range (hparts : DataParts r p data s orders) (h : dataPlan r p = .ok data) :
    data.statement.offset = (if s.hasToManyJoins || r.offset != 0 then some r.offset else none) ∧
      data.statement.limit = r.limit.or (data.statement.offset.map fun _ => unboundedLimit) := by
  unfold dataPlan at h
  rw [hparts.ordering] at h
  cases h
  refine ⟨rfl, ?_⟩
  cases r.limit <;> rfl

theorem outputOf_exprs (s : Scope) (projection : Option Projection) :
    (outputOf s projection).2.2.map Selected.expr = (outputOf s projection).1.map Item.expr := by
  cases projection <;> simp [outputOf]

theorem DataParts.sorts_by_items (hparts : DataParts r p data s orders) (hmerged : data.statement.distinct = true) :
    ∀ k ∈ data.statement.orderBy, k.expr ∈ data.statement.items.map Item.expr := by
  intro k hk
  rw [hparts.orderBy] at hk
  obtain ⟨o, ho, rfl⟩ := List.mem_map.1 hk
  obtain ⟨extra, hitems, hextra⟩ := hparts.items
  rw [if_pos hmerged] at hextra
  rw [hitems, hextra, List.map_append, List.mem_append, ← outputOf_exprs, mem_extraItems]
  by_cases hsel : ∃ x ∈ (outputOf p.scope p.projection).2.2, x.expr = o.term.expr
  · obtain ⟨x, hx, hxo⟩ := hsel
    exact .inl (List.mem_map.2 ⟨x, hx, hxo⟩)
  · exact .inr ⟨o, ho, rfl, fun x hx hxo => hsel ⟨x, hx, hxo⟩⟩

theorem DataParts.plain_clauses (hparts : DataParts r p data s orders) (hscope : ∀ x ∈ p.scope.fields, x.2.Honest)
    (hprojection : ∀ f ∈ p.projection.getD [], f.2.Honest) (hbare : data.statement.groupBy = []) :
    data.statement.having = [] ∧
      ∀ e ∈ data.statement.items.map Item.expr ++ data.statement.orderBy.map SortKey.expr, e.isAggregate = false := by
  have haggregated := (hparts.plain_of_honest hscope hprojection hbare).2
  simp only [Statement.aggregated, Bool.or_eq_false_iff, List.any_eq_false, Bool.not_eq_true, Bool.not_eq_false',
    List.isEmpty_iff] at haggregated
  obtain ⟨⟨hitems, hhaving⟩, hsort⟩ := haggregated
  refine ⟨hhaving, fun e he => ?_⟩
  rcases List.mem_append.1 he with he | he
  · obtain ⟨i, hi, rfl⟩ := List.mem_map.1 he
    exact hitems i hi
  · obtain ⟨k, hk, rfl⟩ := List.mem_map.1 he
    exact hsort k hk

end

theorem wellFormed_dataPlan {catalog : Catalog} {root : Entity} {r : Request} {p : Prepared} {data : Plan}
    (hunder : p.Under catalog root dataLabel) (hscope : ∀ x ∈ p.scope.fields, x.2.Honest)
    (hprojection : ∀ f ∈ p.projection.getD [], f.2.Honest) (h : dataPlan r p = .ok data) :
    data.statement.WellFormed (Expr.col dataLabel root.identityColumn) := by
  obtain ⟨s, orders, hparts⟩ := dataPlan_ok h
  obtain ⟨hoffset, hlimit⟩ := hparts.range h
  have hidentity : s.identity.expr = Expr.col dataLabel root.identityColumn := by
    rw [hparts.grows.identity]
    unfold Scope.identity
    rw [hunder.label, hunder.root]
  have hcases := dataGrouping_cases p.projection (outputOf p.scope p.projection).2.2 orders
    (hidentity ▸ hunder.groupBy)
  rw [← hparts.groupBy, hidentity] at hcases
  have hrange : data.statement.offset.isSome = true → data.statement.limit.isSome = true := fun hsome => by
    rw [hlimit, Option.isSome_or, Option.isSome_map, hsome, Bool.or_true]
  refine ⟨fun hmerged => ?_, fun e he hagg => ?_, fun hhaving hbare => ?_, fun ⟨j, hj, hmany⟩ => ?_, hrange⟩
  · have hbare : data.statement.groupBy = [] := by
      rw [hparts.distinct, Bool.and_eq_true, List.isEmpty_iff] at hmerged
      exact hmerged.2
    obtain ⟨hhaving, hplain⟩ := hparts.plain_clauses hscope hprojection hbare
    exact ⟨hbare, hhaving, hplain, hparts.sorts_by_items hmerged⟩
  · refine hcases.resolve_left fun hbare => ?_
    obtain ⟨hhaving, hplain⟩ := hparts.plain_clauses hscope hprojection hbare
    rw [hhaving, List.append_nil] at he
    rw [hplain e he] at hagg
    cases hagg
  · exact hhaving (hparts.plain_clauses hscope hprojection hbare).1
  · have hrepeats : s.hasToManyJoins = true := by
      rw [hparts.joins] at hj
      obtain ⟨k, hk, rfl⟩ := List.mem_map.1 hj
      exact List.any_eq_true.2 ⟨k, hk, hmany⟩
    have hstart : data.statement.offset.isSome = true := by
      rw [hoffset, hrepeats]
      rfl
    refine ⟨?_, hrange hstart, hstart⟩
    rw [hparts.distinct, hrepeats, Bool.true_and, List.isEmpty_iff]
    exact em _

theorem Scope.honest_measure {s : Scope} (hs : s.fields = []) {m : Measure} {path : String} {t : Term}
    (h : (s.measure m path).2 = .ok t) : t.Honest := by
  have hgroup : ∀ f type, (s.overGroup f type path).2 = .ok t → t.Honest := fun f type h => by
    unfold overGroup at h
    rcases hread : s.readTarget path with ⟨s', e | u⟩
    · rw [hread] at h
      cases h
    · rw [hread] at h
      cases h
      exact fun hplain => by cases hplain
  have hidentity : ∀ f type, (s.perIdentity f type path).2 = .ok t → t.Honest := fun f type h => by
    unfold perIdentity at h
    rcases hread : s.detached.readTarget path with ⟨s', e | u⟩
    · rw [hread] at h
      cases h
    · rw [hread] at h
      cases h
      exact fun _ => rfl
  cases m with
  | path => exact honest_resolveMarked (by simp [hs]) h
  | count | min | max => exact hgroup _ _ h
  | sum | avg => exact hidentity _ _ h

/-- **The statement of the rows is well formed**, whatever is asked for.  It is so after every build, and whichever way
the fields and conditions came about, if each field is a function of groups only where it says so, as all that is
measured is. -/
theorem data_wellFormed (r : Request) :
    (∀ catalog root caps wantCount recipe requireProjection plan,
        (PagePlan.build catalog root caps r wantCount recipe requireProjection).2 = .ok plan →
        plan.data.statement.WellFormed (Expr.col dataLabel root.identityColumn)) ∧
      (∀ (s : Scope) projection conditions p data, s.label = dataLabel → (∀ f ∈ projection.getD [], f.2.Honest) →
        (restrict (s.withFields projection) r projection conditions).2 = .ok p → dataPlan r p = .ok data →
        data.statement.WellFormed (Expr.col dataLabel s.root.identityColumn)) ∧
      ∀ (s : Scope) m path t, s.fields = [] → (s.measure m path).2 = .ok t → t.Honest := by
  refine ⟨fun catalog root caps wantCount recipe requireProjection plan h => ?_,
    fun s projection conditions p data hlabel hfields hp hdata => ?_, fun s m path t hs h => s.honest_measure hs h⟩
  · obtain ⟨p, hprepare, hdata, -⟩ := build_ok h
    have hclosed := closed_prepare hprepare
    exact wellFormed_dataPlan (under_prepare hprepare) (fun x hx => (hclosed.scope.fields x hx).plain)
      (fun f hf => (hclosed.projection f hf).plain) hdata
  · have hunder := under_restrict hp
    obtain ⟨hprojection, hgrows⟩ := grows_restrict hp
    have hwith : (s.withFields projection).label = dataLabel := hlabel
    rw [hwith] at hunder
    rw [← hprojection] at hfields
    refine wellFormed_dataPlan hunder (fun x hx => hfields x ?_) hfields hdata
    rw [hgrows.fields] at hx
    exact hprojection ▸ hx

open Sample in
/-- Shoppers by the amounts of their orders are grouped, all persons by them are merged. -/
theorem shoppers_and_persons_by_amount_wellFormed :
    (∃ plan, (PagePlan.build catalog person Backend.postgres.capabilities (shoppersBy "orders.amount") true none
        false).2 = .ok plan ∧ plan.data.statement.groupBy ≠ [] ∧
        plan.data.statement.WellFormed (Expr.col dataLabel person.identityColumn)) ∧
      ∃ plan, (PagePlan.build catalog person Backend.mysql.capabilities (personsBy "orders.amount") true none
        false).2 = .ok plan ∧ plan.data.statement.distinct = true ∧
        plan.data.statement.WellFormed (Expr.col dataLabel person.identityColumn) := by
  obtain ⟨shoppers, hshoppers, hgrouped⟩ := exists_ok (P := fun plan : PagePlan => plan.data.statement.groupBy ≠ [])
    (x := (PagePlan.build catalog person Backend.postgres.capabilities (shoppersBy "orders.amount") true none false).2)
    (by decide +kernel)
  obtain ⟨persons, hpersons, hmerged⟩ := exists_ok (P := fun plan : PagePlan => plan.data.statement.distinct = true)
    (x := (PagePlan.build catalog person Backend.mysql.capabilities (personsBy "orders.amount") true none false).2)
    (by decide +kernel)
  exact ⟨⟨shoppers, hshoppers, hgrouped, (data_wellFormed _).1 _ _ _ _ _ _ _ hshoppers⟩, persons, hpersons, hmerged,
    (data_wellFormed _).1 _ _ _ _ _ _ _ hpersons⟩

end PageQuery
