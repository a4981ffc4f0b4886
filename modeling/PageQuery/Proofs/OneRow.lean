import PageQuery.Proofs.Agreement
/-!
# When the rows show each root row once

A to-many join makes several joined rows of one root row.  Grouping and DISTINCT put them together again, but for what
else they list: the sort keys.  A sort key that is the least or the greatest of a collection is one per group; one that
is read off a row behind a to-many relation is listed as it is.  So each root row is shown once just as far as its
joined rows agree on the sort keys of that kind.
-/
namespace PageQuery

variable {d : Dialect} {db : Store}

/-! ## Joins that keep a row single -/

theorem length_extend {w : Tuple} {j : Join} (hj : db.Keyed d j.table j.column) : (w.extend d db j).length = 1 := by
  have hapart : ((db.rows j.table).filter fun r => d.equal (r j.column) (w.cell j.owner)).Pairwise
      fun r t => d.key (r j.column) ≠ d.key (t j.column) := hj.apart.filter _
  have hsame : ∀ r ∈ (db.rows j.table).filter fun r => d.equal (r j.column) (w.cell j.owner),
      d.key (r j.column) = d.key (w.cell j.owner) := by
    intro r hr
    have hequal := (List.mem_filter.1 hr).2
    rw [Dialect.equal, Bool.and_eq_true, decide_eq_true_eq] at hequal
    exact hequal.2
  unfold Tuple.extend
  cases hmatches : (db.rows j.table).filter fun r => d.equal (r j.column) (w.cell j.owner) with
  | nil => rfl
  | cons r rest =>
    cases rest with
    | nil => rfl
    | cons t rest =>
      rw [hmatches] at hapart hsame
      have hne := (List.pairwise_cons.1 hapart).1 t List.mem_cons_self
      exact absurd ((hsame r List.mem_cons_self).trans (hsame t (List.mem_cons_of_mem r List.mem_cons_self)).symm) hne

theorem length_joined : ∀ {js : List Join}, (∀ j ∈ js, db.Keyed d j.table j.column) → ∀ w : Tuple,
    (Tuple.joined d db js w).length = 1
  | [], _, _ => rfl
  | j :: js, hjs, w => by
    obtain ⟨v, hv⟩ := List.length_eq_one_iff.1 (length_extend (w := w) (hjs j List.mem_cons_self))
    have hrest := length_joined (fun k hk => hjs k (List.mem_cons_of_mem j hk)) v
    rw [Tuple.joined, hv, List.flatMap_singleton]
    exact hrest

theorem Scope.Laid.keyed {s : Scope} (hs : s.Laid) (hcatalog : ∀ e ∈ s.catalog.entities, db.Identifies d e)
    (hone : s.hasToManyJoins = false) : ∀ j ∈ s.joinList, db.Keyed d j.table j.column := by
  intro j hj
  obtain ⟨k, hk, rfl⟩ := List.mem_map.1 hj
  have htoOne : k.join.toMany = false := by
    unfold Scope.hasToManyJoins at hone
    simpa using List.any_eq_false.1 hone k hk
  obtain ⟨e, he, htable, hcolumn⟩ := (hs.ordered.made k hk).toOne htoOne
  rw [htable, hcolumn]
  exact hcatalog e he

/-! ## Sort keys -/

/-- A sort key is either a function of groups or read off the joined rows, and then a grouping lists it. -/
structure OrderTerm.Plain (o : OrderTerm) : Prop where
  aggregate : o.term.isAggregate = o.term.expr.isAggregate
  listed : o.term.needsGrouping = !o.term.expr.isAggregate

theorem plain_collapse {t : Term} (hlisted : t.needsGrouping = true) (hexpr : t.expr.isAggregate = false)
    (ascending : Bool) : OrderTerm.Plain ⟨collapse t ascending, ascending⟩ := by
  obtain ⟨e, type, origin⟩ := t
  cases origin with
  | column => exact ⟨hexpr.symm, congrArg Bool.not hexpr.symm⟩
  | collection => cases ascending <;> exact ⟨rfl, rfl⟩
  | aggregate | derived => cases hlisted

theorem plain_orderTerms {s s' : Scope} (hs : s.fields = []) {r : Request} {orders : List OrderTerm}
    (h : orderTerms s r = (s', .ok orders)) : ∀ o ∈ orders, o.Plain :=
  orderTerms_forall (I := fun s => s.fields = []) (P := fun _ o => o.Plain)
    (fun o _ s hs => (Scope.grows_readTarget s o.path).fields.trans hs) (fun _ ho => ho)
    (fun o _ _ _ hs ht =>
      plain_collapse (Scope.resolveMarked_column hs ht).1 (Scope.resolveMarked_column hs ht).2 o.ascending) hs h

theorem prepare_whole {catalog : Catalog} {root : Entity} {r : Request} {recipe : Option Recipe} {label : String}
    {p : Prepared} (hwhole : ∀ x ∈ recipe, x.whole = true) (h : (prepare catalog root r recipe label).2 = .ok p) :
    p.projection = none ∧ p.scope.fields = [] := by
  have hfields : ∀ {s : Scope} {conditions : List Expr}, s.fields = [] →
      (restrict s r none conditions).2 = .ok p → p.projection = none ∧ p.scope.fields = [] := by
    intro s conditions hs hr
    obtain ⟨hnone, hgrows⟩ := grows_restrict hr
    exact ⟨hnone, hgrows.fields.trans hs⟩
  rcases prepare_ok h with ⟨-, hr⟩ | ⟨x, st, rfl, -, hr⟩
  · exact hfields rfl hr
  · have hnone : x.projection? st = none := by
      unfold Recipe.projection?
      rw [hwhole x rfl]
      rfl
    rw [hnone] at hr
    exact hfields rfl hr

/-! ## What the rows list -/

/-- Nothing is listed but root columns and sort keys read off the joined rows, and of these every one that is not a root
column itself. -/
structure Lists (label : String) (orders : List OrderTerm) (es : List Expr) : Prop where
  only : ∀ e ∈ es, (∃ c, e = Expr.col label c) ∨ ∃ o ∈ orders, o.term.expr.isAggregate = false ∧ o.term.expr = e
  all : ∀ o ∈ orders, o.term.expr.isAggregate = false → o.term.expr ∈ es ∨ ∃ c, o.term.expr = Expr.col label c

theorem Lists.groupKey_iff {label : String} {orders : List OrderTerm} {es : List Expr} (h : Lists label orders es)
    {x y : Tuple} (hxy : x.lookup label = y.lookup label) :
    groupKey d db es x = groupKey d db es y ↔ ∀ o ∈ orders, o.term.expr.isAggregate = false →
      d.key (o.term.expr.eval d db [x]) = d.key (o.term.expr.eval d db [y]) := by
  have hroot : ∀ c, d.key ((Expr.col label c).eval d db [x]) = d.key ((Expr.col label c).eval d db [y]) := by
    intro c
    simp only [Expr.col, Expr.eval, List.headD_cons, Tuple.cell, hxy]
  constructor
  · intro hkey o ho hplain
    rcases h.all o ho hplain with hmem | ⟨c, hc⟩
    · exact eval_eq_of_groupKey_eq hkey hmem
    · rw [hc]
      exact hroot c
  · intro hagree
    refine List.map_congr_left fun e he => ?_
    rcases h.only e he with ⟨c, rfl⟩ | ⟨o, ho, hplain, rfl⟩
    · exact hroot c
    · exact hagree o ho hplain

/-- Joined rows of one identity are of one root row, so what is listed tells them apart by the sort keys only. -/
theorem Lists.groupKey_iff_of_ident {sel : Selection} (hdb : db.Keyed d sel.root.table sel.root.identityColumn)
    {orders : List OrderTerm} {es : List Expr} (h : Lists sel.label orders es) {x y : Tuple}
    (hx : x ∈ db.tuples d sel.root.table sel.label sel.joins) (hy : y ∈ db.tuples d sel.root.table sel.label sel.joins)
    (hxy : sel.ident d x = sel.ident d y) :
    groupKey d db es x = groupKey d db es y ↔ ∀ o ∈ orders, o.term.expr.isAggregate = false →
      d.key (o.term.expr.eval d db [x]) = d.key (o.term.expr.eval d db [y]) := by
  obtain ⟨r, -, hxr, hyr⟩ := Selection.exists_span_of_ident_eq hdb hx hy hxy
  refine h.groupKey_iff ?_
  rw [Selection.lookup_of_mem_span hxr, Selection.lookup_of_mem_span hyr]

section
variable {s : Scope} {orders : List OrderTerm}

theorem mem_outputOf {e : Expr} :
    (e ∈ (outputOf s none).1.map Item.expr ↔ ∃ x ∈ s.root.columns, e = s.rootColumn x.2) ∧
    ((∃ x ∈ (outputOf s none).2.2, x.grouped = true ∧ x.expr = e) ↔ ∃ x ∈ s.root.columns, e = s.rootColumn x.2) := by
  constructor
  · simp [outputOf, eq_comm]
  · constructor
    · rintro ⟨x, hx, -, rfl⟩
      obtain ⟨c, hc, rfl⟩ := List.mem_map.1 hx
      exact ⟨c, hc, rfl⟩
    · rintro ⟨c, hc, rfl⟩
      exact ⟨_, List.mem_map_of_mem hc, rfl, rfl⟩

theorem lists_dataGrouping (horders : ∀ o ∈ orders, o.Plain) {restriction : Restriction}
    (hrestriction : restriction.groupBy = if restriction.having.isEmpty then [] else [s.identity.expr])
    (hsome : dataGrouping s.identity.expr restriction none (outputOf s none).2.2 orders ≠ []) :
    Lists s.label orders (dataGrouping s.identity.expr restriction none (outputOf s none).2.2 orders) := by
  have hmem : ∀ e, e ∈ dataGrouping s.identity.expr restriction none (outputOf s none).2.2 orders ↔
      e = s.identity.expr ∨ (∃ x ∈ s.root.columns, e = s.rootColumn x.2) ∨
        ∃ o ∈ orders, o.term.needsGrouping = true ∧ o.term.expr = e := fun e => by
    rw [mem_dataGrouping_iff hrestriction hsome, mem_outputOf.2]
  refine ⟨fun e he => ?_, fun o ho hexpr => .inl ?_⟩
  · rcases (hmem e).1 he with rfl | ⟨x, -, rfl⟩ | ⟨o, ho, hneeds, rfl⟩
    · exact .inl ⟨_, rfl⟩
    · exact .inl ⟨_, rfl⟩
    · rw [(horders o ho).listed, Bool.not_eq_true'] at hneeds
      exact .inr ⟨o, ho, hneeds, rfl⟩
  · refine (hmem _).2 (.inr (.inr ⟨o, ho, ?_, rfl⟩))
    rw [(horders o ho).listed, hexpr]
    rfl

theorem lists_items (horders : ∀ o ∈ orders, o.term.expr.isAggregate = false) :
    Lists s.label orders (((outputOf s none).1 ++ extraItems (outputOf s none).2.2 0 orders).map Item.expr) := by
  have hmem : ∀ e, e ∈ ((outputOf s none).1 ++ extraItems (outputOf s none).2.2 0 orders).map Item.expr ↔
      (∃ x ∈ s.root.columns, e = s.rootColumn x.2) ∨
        ∃ o ∈ orders, o.term.expr = e ∧ ∀ x ∈ (outputOf s none).2.2, x.expr ≠ e := by
    intro e
    rw [List.map_append, List.mem_append, mem_outputOf.1, mem_extraItems]
  refine ⟨fun e he => ?_, fun o ho hexpr => ?_⟩
  · rcases (hmem e).1 he with ⟨x, -, rfl⟩ | ⟨o, ho, rfl, -⟩
    · exact .inl ⟨_, rfl⟩
    · exact .inr ⟨o, ho, horders o ho, rfl⟩
  · by_cases hsel : ∃ x ∈ (outputOf s none).2.2, x.expr = o.term.expr
    · obtain ⟨x, hx, hxo⟩ := hsel
      obtain ⟨y, -, rfl⟩ := List.mem_map.1 hx
      exact .inr ⟨_, hxo.symm⟩
    · exact .inl ((hmem _).2 (.inr ⟨o, ho, rfl, fun x hx hxo => hsel ⟨x, hx, hxo⟩⟩))

end

/-- Where nothing is grouped, groups are not restricted and nothing put out or sorted by is a function of groups. -/
theorem free_of_dataGrouping_eq_nil {identity : Expr} {restriction : Restriction} {projection : Option Projection}
    {selected : List Selected} {orders : List OrderTerm}
    (h : dataGrouping identity restriction projection selected orders = []) :
    restriction.having = [] ∧ (projection.getD []).hasAggregates = false ∧
      ∀ o ∈ orders, o.term.isAggregate = false := by
  unfold dataGrouping at h
  simp only at h
  split at h
  · next hcond =>
    have hmem : identity ∈ ((selected.filter (·.grouped)).map Selected.expr ++
        (orders.filter (·.term.needsGrouping)).map (·.term.expr)).foldl addGrouping
          (addGrouping restriction.groupBy identity) :=
      mem_foldl_addGrouping.2 (.inl (mem_addGrouping.2 (.inr rfl)))
    rw [h] at hmem
    cases hmem
  · next hcond =>
    simp only [Bool.or_eq_true, not_or, Bool.not_eq_true', Bool.not_eq_false, List.isEmpty_iff] at hcond
    obtain ⟨hhaving, hfields, horders⟩ := hcond
    refine ⟨hhaving, Bool.eq_false_iff.2 hfields, fun o ho => ?_⟩
    by_contra hagg
    rw [Bool.not_eq_false] at hagg
    exact horders (List.any_eq_true.2 ⟨o, ho, hagg⟩)

/-- The term is a function of groups only if it says so. -/
def Term.Honest (t : Term) : Prop := t.isAggregate = false → t.expr.isAggregate = false

theorem honest_collapse {t : Term} (ht : t.Honest) (ascending : Bool) : (collapse t ascending).Honest := by
  unfold collapse
  split
  · exact fun hplain => by cases hplain
  · exact ht

theorem Scope.honest_resolveMarked {s : Scope} (hs : ∀ x ∈ s.fields, x.2.Honest) {mark : String → String}
    {path : String} {t : Term} (h : (s.resolveMarked mark path).2 = .ok t) : t.Honest := by
  rcases resolveMarked_cases h with ⟨name, hfield⟩ | ⟨target, -, htrace⟩
  · exact hs _ hfield
  · obtain ⟨-, l, c, hexpr, -⟩ := (trace_made s target).2 t htrace
    exact fun _ => by rw [hexpr]; rfl

theorem honest_orderTerms {s s' : Scope} (hs : ∀ x ∈ s.fields, x.2.Honest) {r : Request} {orders : List OrderTerm}
    (h : orderTerms s r = (s', .ok orders)) : ∀ o ∈ orders, o.term.Honest :=
  orderTerms_forall (I := fun s => ∀ x ∈ s.fields, x.2.Honest) (P := fun _ o => o.term.Honest)
    (fun o _ s hs => by rwa [(Scope.grows_readTarget s o.path).fields]) (fun _ ho => ho)
    (fun o _ _ _ hs ht => honest_collapse (Scope.honest_resolveMarked hs ht) o.ascending) hs h

theorem DataParts.plain_of_honest {r : Request} {p : Prepared} {data : Plan} {s : Scope} {orders : List OrderTerm}
    (hparts : DataParts r p data s orders) (hscope : ∀ x ∈ p.scope.fields, x.2.Honest)
    (hprojection : ∀ f ∈ p.projection.getD [], f.2.Honest) (hbare : data.statement.groupBy = []) :
    (∀ o ∈ orders, o.term.expr.isAggregate = false) ∧ data.statement.aggregated = false := by
  rw [hparts.groupBy] at hbare
  obtain ⟨hhaving, hfields, hterms⟩ := free_of_dataGrouping_eq_nil hbare
  have horders : ∀ o ∈ orders, o.term.expr.isAggregate = false := fun o ho =>
    honest_orderTerms hscope hparts.ordering o ho (hterms o ho)
  refine ⟨horders, ?_⟩
  obtain ⟨extra, hitems, hextra⟩ := hparts.items
  have houtput : ∀ i ∈ (outputOf p.scope p.projection).1, i.expr.isAggregate = false := by
    intro i hi
    cases hfield : p.projection with
    | none =>
      rw [hfield] at hi
      obtain ⟨c, -, rfl⟩ := List.mem_map.1 hi
      rfl
    | some fields =>
      rw [hfield] at hi hfields hprojection
      obtain ⟨f, hf, rfl⟩ := List.mem_map.1 hi
      refine hprojection f hf ?_
      simpa using List.any_eq_false.1 hfields f hf
  have hitem : ∀ i ∈ data.statement.items, i.expr.isAggregate = false := by
    intro i hi
    rw [hitems, hextra] at hi
    rcases List.mem_append.1 hi with hi | hi
    · exact houtput i hi
    · split at hi
      · obtain ⟨o, ho, hexpr, -⟩ := (mem_extraItems 0 orders).1 (List.mem_map_of_mem hi)
        rw [← hexpr]
        exact horders o ho
      · cases hi
  have hany : data.statement.items.any (fun i => i.expr.isAggregate) = false :=
    List.any_eq_false.2 fun i hi => by simp [hitem i hi]
  have hsort : data.statement.orderBy.any (fun k => k.expr.isAggregate) = false := by
    rw [hparts.orderBy, List.any_map]
    exact List.any_eq_false.2 fun o ho => by simp [horders o ho]
  unfold Statement.aggregated
  rw [hany, hsort, hparts.having, hhaving]
  rfl

theorem DataParts.plain_of_bare {r : Request} {p : Prepared} {data : Plan} {s : Scope} {orders : List OrderTerm}
    (hparts : DataParts r p data s orders) (hclosed : p.Closed) (hbare : data.statement.groupBy = []) :
    (∀ o ∈ orders, o.term.expr.isAggregate = false) ∧ data.statement.aggregated = false :=
  hparts.plain_of_honest (fun x hx => (hclosed.scope.fields x hx).plain)
    (fun f hf => (hclosed.projection f hf).plain) hbare

/-! ## Showings -/

namespace Statement
variable (d : Dialect) (db : Store) (q : Statement)

/-- In how many rows the root row with an identity is shown. -/
def showings (column : String) (id : Cell) : Nat :=
  (q.rows d db).countP fun out => out.members.any (q.isOf d column id)

def SortsAlike (x y : Tuple) : Prop :=
  ∀ k ∈ q.orderBy, k.expr.isAggregate = false → d.key (k.expr.eval d db [x]) = d.key (k.expr.eval d db [y])

/-- The joined rows of one identity all do. -/
def SortsTogether (column : String) : Prop :=
  ∀ o ∈ q.rows d db, ∀ o' ∈ q.rows d db, ∀ x ∈ o.members, ∀ y ∈ o'.members,
    d.key (x.cell ⟨q.label, column⟩) = d.key (y.cell ⟨q.label, column⟩) → q.SortsAlike d db x y

structure ToldApart (es : List Expr) : Prop where
  same : ∀ o ∈ q.rows d db, ∀ x ∈ o.members, ∀ y ∈ o.members, groupKey d db es x = groupKey d db es y
  apart : (q.rows d db).Pairwise fun o o' => ∀ x ∈ o.members, ∀ y ∈ o'.members,
    groupKey d db es x ≠ groupKey d db es y

instance (x y : Tuple) : Decidable (q.SortsAlike d db x y) :=
  inferInstanceAs (Decidable (∀ k ∈ q.orderBy, _ → _))

instance (column : String) : Decidable (q.SortsTogether d db column) :=
  inferInstanceAs (Decidable (∀ o ∈ q.rows d db, ∀ o' ∈ q.rows d db, _))

variable {d db q}

theorem toldApart_of_grouped (hgrouped : q.groupBy.isEmpty = false) (hdistinct : q.distinct = false) :
    q.ToldApart d db q.groupBy := by
  have hrows : q.rows d db = (q.groups d db).map fun g => ⟨q.items.map fun i => i.expr.eval d db g, g⟩ := by
    unfold rows
    rw [hdistinct]
    rfl
  have hbare : q.groupBy.isEmpty = true → q.aggregated = false := fun h => by
    rw [hgrouped] at h
    cases h
  refine ⟨fun o ho x hx y hy => ?_, ?_⟩
  · rw [hrows] at ho
    obtain ⟨g, hg, rfl⟩ := List.mem_map.1 ho
    exact eq_of_mem_pick hbare (fun _ _ _ _ _ h => h) hg hx hy
  · rw [hrows]
    refine List.pairwise_map.2 (List.Pairwise.filter _ ?_)
    rw [hgrouped]
    exact parts_apart q.aggregated (groupKey d db q.groupBy) _

theorem toldApart_of_distinct (hbare : q.groupBy.isEmpty = true) (hplain : q.aggregated = false)
    (hdistinct : q.distinct = true) : q.ToldApart d db (q.items.map Item.expr) := by
  have hrows : q.rows d db =
      mergeRows d ((q.groups d db).map fun g => ⟨q.items.map fun i => i.expr.eval d db g, g⟩) := by
    unfold rows
    rw [hdistinct]
    rfl
  -- every joined row is a row of its own before equal rows are merged
  have hcells : ∀ o ∈ (q.groups d db).map fun g => (⟨q.items.map fun i => i.expr.eval d db g, g⟩ : ResultRow),
      ∀ x ∈ o.members, d.keys o.cells = groupKey d db (q.items.map Item.expr) x := by
    intro o ho x hx
    obtain ⟨g, hg, rfl⟩ := List.mem_map.1 ho
    have hpart := (mem_pick.1 hg).1
    rw [hbare, hplain] at hpart
    obtain ⟨w, -, rfl⟩ := mem_parts_alone.1 hpart
    rw [List.mem_singleton.1 hx]
    simp [Dialect.keys, groupKey, Function.comp_def]
  generalize (q.groups d db).map (fun g => (⟨q.items.map fun i => i.expr.eval d db g, g⟩ : ResultRow)) = rs
    at hrows hcells
  refine ⟨fun o ho x hx y hy => ?_, ?_⟩
  · rw [hrows] at ho
    obtain ⟨same, hsame, rfl⟩ := List.mem_map.1 ho
    obtain ⟨a, ha, hxa⟩ := List.mem_flatMap.1 hx
    obtain ⟨b, hb, hyb⟩ := List.mem_flatMap.1 hy
    rw [← hcells a (mem_of_mem_parts hsame ha) x hxa, ← hcells b (mem_of_mem_parts hsame hb) y hyb]
    obtain ⟨c, -, rfl⟩ := mem_parts_keys.1 hsame
    exact (of_decide_eq_true (List.mem_filter.1 ha).2).trans (of_decide_eq_true (List.mem_filter.1 hb).2).symm
  · rw [hrows]
    refine List.pairwise_map.2 ((parts_apart false (fun r : ResultRow => d.keys r.cells) rs).imp_of_mem ?_)
    intro same same' hsame hsame' hne x hx y hy
    obtain ⟨a, ha, hxa⟩ := List.mem_flatMap.1 hx
    obtain ⟨b, hb, hyb⟩ := List.mem_flatMap.1 hy
    rw [← hcells a (mem_of_mem_parts hsame ha) x hxa, ← hcells b (mem_of_mem_parts hsame' hb) y hyb]
    exact hne a ha b hb

theorem Reads.mem_tuples {sel : Selection} (hq : q.Reads sel) {o : ResultRow} (ho : o ∈ q.rows d db) {x : Tuple}
    (hx : x ∈ o.members) : x ∈ db.tuples d sel.root.table sel.label sel.joins := by
  obtain ⟨g, hg, hxg⟩ := mem_members_rows.1 ⟨o, ho, hx⟩
  have hmem := (List.mem_filter.1 (mem_of_mem_parts (mem_pick.1 hg).1 hxg)).1
  rwa [hq.table, hq.label, hq.joins] at hmem

/-- **Each root row is shown at most once just if its joined rows agree on the sort keys**, when rows are told apart by
root columns and sort keys. -/
theorem Reads.showings_iff {sel : Selection} (hq : q.Reads sel)
    (hdb : db.Keyed d sel.root.table sel.root.identityColumn) {es : List Expr} (htold : q.ToldApart d db es)
    {orders : List OrderTerm} (horders : q.orderBy = orders.map fun o => ⟨o.term.expr, o.ascending⟩)
    (hlists : Lists sel.label orders es) :
    (∀ r ∈ db.rows sel.root.table, q.showings d db sel.root.identityColumn (r sel.root.identityColumn) ≤ 1) ↔
      q.SortsTogether d db sel.root.identityColumn := by
  have hone : ∀ r ∈ db.rows sel.root.table, (q.showings d db sel.root.identityColumn (r sel.root.identityColumn) ≤ 1 ↔
      ∀ o ∈ q.rows d db, ∀ o' ∈ q.rows d db, ∀ x ∈ o.members, ∀ y ∈ o'.members,
        q.isOf d sel.root.identityColumn (r sel.root.identityColumn) x = true →
          q.isOf d sel.root.identityColumn (r sel.root.identityColumn) y = true →
            groupKey d db es x = groupKey d db es y) := fun r _ =>
    countP_parts_le_one_iff htold.same htold.apart _
  have hident : ∀ w : Tuple, d.key (w.cell ⟨q.label, sel.root.identityColumn⟩) = sel.ident d w := fun w => by
    rw [hq.label]
    rfl
  have hisOf : ∀ (r : Row) (w : Tuple), q.isOf d sel.root.identityColumn (r sel.root.identityColumn) w = true ↔
      sel.ident d w = d.key (r sel.root.identityColumn) := fun r w => by
    rw [isOf, decide_eq_true_eq, hident]
  have hkeys : ∀ o ∈ q.rows d db, ∀ o' ∈ q.rows d db, ∀ x ∈ o.members, ∀ y ∈ o'.members,
      sel.ident d x = sel.ident d y → (groupKey d db es x = groupKey d db es y ↔ q.SortsAlike d db x y) := by
    intro o ho o' ho' x hx y hy hxy
    unfold SortsAlike
    rw [hlists.groupKey_iff_of_ident hdb (hq.mem_tuples ho hx) (hq.mem_tuples ho' hy) hxy, horders]
    simp
  constructor
  · intro hall o ho o' ho' x hx y hy hxy
    rw [hident, hident] at hxy
    obtain ⟨r, hr, hxr, -⟩ := Selection.exists_span_of_ident_eq hdb (hq.mem_tuples ho hx) (hq.mem_tuples ho' hy) hxy
    have hxid := Selection.ident_of_mem_span hxr
    have hkey := (hone r hr).1 (hall r hr) o ho o' ho' x hx y hy ((hisOf r x).2 hxid)
      ((hisOf r y).2 (hxy.symm.trans hxid))
    exact (hkeys o ho o' ho' x hx y hy hxy).1 hkey
  · intro hsorts r hr
    refine (hone r hr).2 fun o ho o' ho' x hx y hy hxr hyr => ?_
    have hxy : sel.ident d x = sel.ident d y := ((hisOf r x).1 hxr).trans ((hisOf r y).1 hyr).symm
    refine (hkeys o ho o' ho' x hx y hy hxy).2 (hsorts o ho o' ho' x hx y hy ?_)
    rw [hident, hident, hxy]

theorem Reads.showings_of_single {sel : Selection} (hq : q.Reads sel)
    (hdb : db.Keyed d sel.root.table sel.root.identityColumn)
    (hsingle : ∀ r, (sel.span d db r).length = 1) (hbare : q.groupBy.isEmpty = true) (hplain : q.aggregated = false)
    (hdistinct : q.distinct = false) (id : Cell) : q.showings d db sel.root.identityColumn id ≤ 1 := by
  have htuples : (db.tuples d q.table q.label q.joins).Pairwise fun x y => sel.ident d x ≠ sel.ident d y := by
    rw [hq.table, hq.label, hq.joins]
    exact Selection.pairwise_ident_of_single hdb hsingle
  have hrows : q.rows d db = (q.groups d db).map fun g => ⟨q.items.map fun i => i.expr.eval d db g, g⟩ := by
    unfold rows
    rw [hdistinct]
    rfl
  have hsame : ∀ o ∈ q.rows d db, ∀ x ∈ o.members, ∀ y ∈ o.members, sel.ident d x = sel.ident d y := by
    intro o ho x hx y hy
    rw [hrows] at ho
    obtain ⟨g, hg, rfl⟩ := List.mem_map.1 ho
    have hpart := (mem_pick.1 hg).1
    rw [hbare, hplain] at hpart
    obtain ⟨w, -, rfl⟩ := mem_parts_alone.1 hpart
    rw [List.mem_singleton.1 hx, List.mem_singleton.1 hy]
  have hapart : (q.rows d db).Pairwise fun o o' =>
      ∀ x ∈ o.members, ∀ y ∈ o'.members, sel.ident d x ≠ sel.ident d y := by
    rw [hrows]
    refine List.pairwise_map.2 (List.Pairwise.filter _ ?_)
    rw [hbare, hplain]
    refine List.pairwise_map.2 ((htuples.filter _).imp fun hne x hx y hy => ?_)
    rw [List.mem_singleton.1 hx, List.mem_singleton.1 hy]
    exact hne
  refine (countP_parts_le_one_iff hsame hapart _).2 fun o _ o' _ x _ y _ hx hy => ?_
  unfold isOf at hx hy
  rw [hq.label] at hx hy
  exact (of_decide_eq_true hx).trans (of_decide_eq_true hy).symm

theorem Reads.sortsTogether_of_single {sel : Selection} (hq : q.Reads sel)
    (hdb : db.Keyed d sel.root.table sel.root.identityColumn)
    (hsingle : ∀ r, (sel.span d db r).length = 1) : q.SortsTogether d db sel.root.identityColumn := by
  intro o ho o' ho' x hx y hy hxy k _ _
  rw [hq.label] at hxy
  obtain ⟨r, -, hxr, hyt⟩ := Selection.exists_span_of_ident_eq hdb (hq.mem_tuples ho hx) (hq.mem_tuples ho' hy) hxy
  obtain ⟨w, hw⟩ := List.length_eq_one_iff.1 (hsingle r)
  rw [hw] at hxr hyt
  rw [List.mem_singleton.1 hxr, List.mem_singleton.1 hyt]

end Statement

/-! ## Rows of the whole entity -/

section
variable {r : Request} {p : Prepared} {data : Plan} {s : Scope} {orders : List OrderTerm}
  (hparts : DataParts r p data s orders) (hprojection : p.projection = none)
include hparts hprojection

theorem DataParts.output_whole : outputOf p.scope p.projection = outputOf s none := by
  rw [hprojection]
  simp only [outputOf, Scope.rootColumn, hparts.grows.root, hparts.grows.label]

theorem DataParts.lists_groupBy {catalog : Catalog} {root : Entity} {label : String}
    (hunder : p.Under catalog root label) (hplain : ∀ o ∈ orders, o.Plain) (hgrouped : data.statement.groupBy ≠ []) :
    Lists s.label orders data.statement.groupBy := by
  have hrestriction : p.restriction.groupBy = if p.restriction.having.isEmpty then [] else [s.identity.expr] := by
    rw [hparts.grows.identity, hunder.groupBy, ← hunder.root, ← hunder.label]
    rfl
  rw [hparts.groupBy, hparts.output_whole hprojection, hprojection] at hgrouped ⊢
  exact lists_dataGrouping hplain hrestriction hgrouped

theorem DataParts.lists_output (horders : ∀ o ∈ orders, o.term.expr.isAggregate = false)
    (hdistinct : data.statement.distinct = true) : Lists s.label orders (data.statement.items.map Item.expr) := by
  obtain ⟨extra, hitems, hextra⟩ := hparts.items
  rw [hparts.output_whole hprojection] at hitems hextra
  rw [hitems, hextra, if_pos hdistinct]
  exact lists_items horders

end

/-- **Rows of the whole entity show each root row at most once just if the joined rows of one identity agree on the
sort keys that are no functions of groups.** -/
theorem shown_once_iff_sortsTogether {catalog : Catalog} {root : Entity} {caps : Capabilities} {r : Request}
    {wantCount : Bool} {recipe : Option Recipe} {requireProjection : Bool} {plan : PagePlan}
    (h : (PagePlan.build catalog root caps r wantCount recipe requireProjection).2 = .ok plan)
    (hwhole : ∀ x ∈ recipe, x.whole = true) (hdb : ∀ e ∈ root :: catalog.entities, db.Identifies d e) :
    (∀ row ∈ db.rows root.table,
      plan.data.statement.showings d db root.identityColumn (row root.identityColumn) ≤ 1) ↔
        plan.data.statement.SortsTogether d db root.identityColumn := by
  obtain ⟨p, hprepare, hdata, -⟩ := build_ok h
  obtain ⟨s, orders, hparts⟩ := dataPlan_ok hdata
  have hunder := under_prepare hprepare
  have hclosed := closed_prepare hprepare
  obtain ⟨hprojection, hfields⟩ := prepare_whole hwhole hprepare
  obtain ⟨more, hreads⟩ := hparts.reads hunder
  have hplain := plain_orderTerms hfields hparts.ordering
  have hroot : (p.selection.join more).root = root := hunder.root
  have hlabel : s.label = (p.selection.join more).label := hparts.grows.label
  have hkeyed : db.Keyed d (p.selection.join more).root.table (p.selection.join more).root.identityColumn := by
    rw [hroot]
    exact hdb root List.mem_cons_self
  rw [← hroot]
  by_cases hgrouped : plan.data.statement.groupBy = []
  · have hbare : plan.data.statement.groupBy.isEmpty = true := List.isEmpty_iff.2 hgrouped
    obtain ⟨horders, haggregated⟩ := hparts.plain_of_bare hclosed hgrouped
    by_cases hmany : s.hasToManyJoins = true
    · have hdistinct : plan.data.statement.distinct = true := by
        rw [hparts.distinct, hmany, hbare]
        rfl
      have hlists := hparts.lists_output hprojection horders hdistinct
      rw [hlabel] at hlists
      exact hreads.showings_iff hkeyed (Statement.toldApart_of_distinct hbare haggregated hdistinct) hparts.orderBy
        hlists
    · -- without to-many joins there is one joined row of each root row
      rw [Bool.not_eq_true] at hmany
      have hdistinct : plan.data.statement.distinct = false := by
        rw [hparts.distinct, hmany]
        rfl
      have hs := hparts.grows.laid hclosed.scope.laid
      have hcatalog : ∀ e ∈ s.catalog.entities, db.Identifies d e := by
        rw [hparts.grows.catalog, hunder.catalog]
        exact fun e he => hdb e (List.mem_cons_of_mem root he)
      have hsingle : ∀ row, ((p.selection.join more).span d db row).length = 1 := fun row => by
        have hone := length_joined (hs.keyed hcatalog hmany) [((p.selection.join more).label, row)]
        rwa [← hparts.joins, hreads.joins] at hone
      exact iff_of_true (fun row _ => hreads.showings_of_single hkeyed hsingle hbare haggregated hdistinct _)
        (hreads.sortsTogether_of_single hkeyed hsingle)
  · have hdistinct : plan.data.statement.distinct = false := by
      rw [hparts.distinct, List.isEmpty_eq_false_iff.2 hgrouped, Bool.and_false]
    have hlists := hparts.lists_groupBy hprojection hunder hplain hgrouped
    rw [hlabel] at hlists
    exact hreads.showings_iff hkeyed
      (Statement.toldApart_of_grouped (List.isEmpty_eq_false_iff.2 hgrouped) hdistinct) hparts.orderBy hlists

open Sample in
/-- By name, each shopper is shown once, over all joined rows. -/
theorem shoppers_by_name_shown_once :
    ∃ plan, (PagePlan.build catalog person Backend.postgres.capabilities (shoppersBy "name") false
        (some .wholeEntity) false).2 = .ok plan ∧
      ∀ row ∈ store.rows "persons", plan.data.statement.showings .plain store "id" (row "id") ≤ 1 := by
  obtain ⟨plan, hplan, hsorts⟩ := exists_ok
    (P := fun plan : PagePlan => plan.data.statement.SortsTogether .plain store person.identityColumn)
    (x := (PagePlan.build catalog person Backend.postgres.capabilities (shoppersBy "name") false (some .wholeEntity)
      false).2) (by decide +kernel)
  have hwhole : ∀ x ∈ some Recipe.wholeEntity, x.whole = true := fun x hx => by
    cases hx
    rfl
  have hdb : ∀ e ∈ person :: catalog.entities, store.Identifies .plain e := by decide +kernel
  exact ⟨plan, hplan, (shown_once_iff_sortsTogether hplan hwhole hdb).2 hsorts⟩

open Sample in
/-- By the amounts of their orders, Ada is shown twice. -/
theorem person_by_amount_shown_twice :
    (∀ e ∈ person :: catalog.entities, store.Identifies .plain e) ∧
    ∃ plan, (PagePlan.build catalog person Backend.postgres.capabilities (personsBy "orders.amount") false none
        false).2 = .ok plan ∧
      ∃ row ∈ store.rows "persons", plan.data.statement.showings .plain store "id" (row "id") = 2 :=
  ⟨by decide +kernel, exists_ok (by decide +kernel)⟩

end PageQuery
