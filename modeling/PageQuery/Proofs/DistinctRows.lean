import PageQuery.Proofs.PerIdentity
import PageQuery.Proofs.ToOne
/-!
# Rows put out against root rows counted

Where every field has one value for each root row, whatever a request joins, restricts or groups leaves one row for each
root row that the total counts, with one exception: a to-many join without a grouping makes the rows DISTINCT, and
DISTINCT merges by what is put out.  So the rows are as many as the total just if root rows that are put out alike are
not merged.
-/
namespace PageQuery

variable {d : Dialect} {db : Store}

/-! ## Terms with one value for each root row -/

/-- The second scope has the joins of the first and those of further paths, under labels that all differ. -/
structure Scope.Widens (s s' : Scope) : Prop where
  laid : s'.Laid
  base : s'.base = s.base
  joins : s.joins <+: s'.joins
  nodup : (s'.label :: s'.joinList.map Join.label).Nodup

/-- Whatever else is joined, the expression means the same over all joined rows of one root row. -/
def Expr.Fixed (s : Scope) (e : Expr) : Prop :=
  ∀ s', s.Widens s' → ∀ (d : Dialect) (db : Store), (∀ e ∈ s.root :: s.catalog.entities, db.Identifies d e) →
    ∀ row ∈ db.rows s.root.table, ∀ v ∈ Tuple.joined d db s'.joinList [(s'.label, row)],
      ∀ w ∈ Tuple.joined d db s'.joinList [(s'.label, row)], e.eval d db [v] = e.eval d db [w]

namespace Scope
variable {s s' : Scope}

theorem Grows.widens (h : s.Grows s') {s'' : Scope} (hwide : s'.Widens s'') : s.Widens s'' :=
  ⟨hwide.laid, hwide.base.trans h.base, h.joins.trans hwide.joins, hwide.nodup⟩

theorem Grows.fixed (h : s.Grows s') {e : Expr} (he : e.Fixed s) : e.Fixed s' := by
  intro s'' hwide d db hdb
  rw [h.root, h.catalog] at hdb
  rw [h.root]
  exact he s'' (h.widens hwide) d db hdb

theorem fixed_withFields {e : Expr} (he : e.Fixed s) (fields : Option Projection) : e.Fixed (s.withFields fields) :=
  fun s' hwide => he s' ⟨hwide.laid, hwide.base, hwide.joins, hwide.nodup⟩

theorem fixed_rootColumn (s : Scope) (name : String) : (s.rootColumn name).Fixed s := by
  intro s' hwide d db hdb row hrow v hv w hw
  obtain ⟨-, -, hlabel⟩ := base_inj.1 hwide.base
  have hcell : ∀ u ∈ Tuple.joined d db s'.joinList [(s'.label, row)], u.cell ⟨s.label, name⟩ = row name := by
    intro u hu
    rw [Tuple.cell_eq, ← hlabel, (Tuple.fits_of_mem_span hwide.laid.ordered.inOrder hwide.nodup hu).1]
  simp only [rootColumn, Expr.col, Expr.eval, List.headD_cons, hcell v hv, hcell w hw]

/-- **A path along to-one relations leads to one row**, whatever else is joined. -/
theorem fixed_trace {path : String} (hone : s.catalog.manyAlong s.root path = false)
    (hunmarked : hasChar '@' path = false) {t : Term} (h : (s.trace path).2 = .ok t) :
    t.expr.Fixed (s.addJoins (s.trace path).1) := by
  obtain ⟨a, hterminal⟩ := terminal_of_trace h
  obtain ⟨-, htoOne, -⟩ := trace_toOne hone hterminal
  have hkeys : ∀ j ∈ (s.trace path).1, '@' ∉ j.key.toList := by
    obtain ⟨segments, p, name, marker, hparse, -, hmarker, -⟩ := terminal_ok hterminal
    obtain ⟨rfl, rfl, -⟩ := parseMarker_unmarked hmarker (notMem_last_of_unmarked hparse hunmarked)
    exact trace_unmarked hparse hmarker (by decide) (notMem_of_unmarked hparse hunmarked)
  intro s' hwide d db hdb row hrow v hv w hw
  obtain ⟨-, -, hlabel⟩ := base_inj.1 (hwide.base.trans (base_addJoins s _))
  have htrace : s'.trace path = s.trace path := by
    rw [← trace_base s', hwide.base, base_addJoins, trace_base]
  have hmem : ∀ j ∈ (s.trace path).1, j.join ∈ s'.joinList := fun j hj => by
    refine List.mem_map_of_mem (hwide.laid.mem_joins_of_key (htrace ▸ hj) (hkeys j hj) ?_)
    exact (hwide.joins.map KeyedJoin.key).subset (key_mem_addJoins hj)
  obtain ⟨hvrow, hvfits⟩ := Tuple.fits_of_mem_span hwide.laid.ordered.inOrder hwide.nodup hv
  obtain ⟨hwrow, hwfits⟩ := Tuple.fits_of_mem_span hwide.laid.ordered.inOrder hwide.nodup hw
  -- the joins of the path are along identities, so both joined rows have the same rows there
  have hagree : ∀ j ∈ (s.trace path).1, v.rowOf j.join.label = w.rowOf j.join.label := fun j hj => by
    refine choices_agree (T := fun l => l = s'.label ∨ ∃ k ∈ (s.trace path).1, k.join.label = l)
      hwide.laid.ordered.inOrder (fun l hl _ => ?_) hvfits (fun i hi hpath => ?_) j.join (hmem j hj) (.inr ⟨j, hj, rfl⟩)
    · rw [List.mem_singleton.1 hl, hvrow, hwrow]
    · obtain hroot | ⟨k, hk, hki⟩ := hpath
      · exact absurd (hroot ▸ List.mem_map_of_mem hi) (List.nodup_cons.1 hwide.nodup).1
      · obtain rfl := List.inj_on_of_nodup_map (List.nodup_cons.1 hwide.nodup).2 (hmem k hk) hi hki
        have howner := (trace_inOrder s path).owner_mem (List.mem_map_of_mem hk)
        obtain ⟨e, he, htable, hcolumn⟩ := ((trace_made s path).1 k hk).toOne (htoOne k hk)
        refine ⟨?_, hwfits _ hi, ?_⟩
        · rw [List.map_map, ← hlabel] at howner
          rcases List.mem_append.1 howner with howner | howner
          · exact .inl (List.mem_singleton.1 howner)
          · obtain ⟨i, hi, hlabel⟩ := List.mem_map.1 howner
            exact .inr ⟨i, hi, hlabel⟩
        · rw [htable, hcolumn]
          refine hdb e (List.mem_cons_of_mem _ ?_)
          rwa [catalog_addJoins]
  obtain ⟨-, l, c, hexpr, hl⟩ := (trace_made s path).2 t h
  have hrows : v.rowOf l = w.rowOf l := by
    rcases hl with rfl | ⟨j, hj, rfl⟩
    · rw [← hlabel, hvrow, hwrow]
    · exact hagree j hj
  simp only [hexpr, Expr.col, Expr.eval, List.headD_cons, Tuple.cell_eq, hrows]

theorem fixed_perRow {m : Measure} {f : Function} (hm : m.perRow? = some f) {path : String} {t : Term}
    (h : (s.measure m path).2 = .ok t) : t.expr.Fixed s := by
  obtain ⟨hf, type, hmeasure⟩ := Measure.perRow_measure hm s path
  rw [hmeasure] at h
  intro s' hwide d db hdb row hrow v hv w hw
  obtain ⟨-, -, hlabel⟩ := base_inj.1 hwide.base
  have hlookup : ∀ u ∈ Tuple.joined d db s'.joinList [(s'.label, row)], u.lookup s.label = some row := fun u hu => by
    obtain ⟨x, rfl, -⟩ := Tuple.mem_joined d db hu
    simp [hlabel]
  have hroot := hdb s.root List.mem_cons_self
  rw [eval_perIdentity hf h hroot hrow (hlookup v hv), eval_perIdentity hf h hroot hrow (hlookup w hw)]

end Scope

/-! ## Recipes whose fields have one value -/

/-- Whether the term of a step has one value for each root row: a path along to-one relations, a sum or an average, the
identity or a constant. -/
def Step.isSingle (c : Catalog) (root : Entity) : Step → Bool
  | .measure .path _ path | .attempt .path path => !hasChar '@' path && !c.manyAlong root path
  | .measure m _ _ | .attempt m _ => m.perRow?.isSome
  | .identity _ | .constant _ _ _ _ | .condition _ => true

def Recipe.isSingle (c : Catalog) (root : Entity) (x : Recipe) : Bool :=
  x.whole || (lasting x.steps).all fun y => y.field?.isNone || y.isSingle c root

theorem Step.Makes.fixed {x : Step} {s s' : Scope} {t : Term} (h : x.Makes s s' t) (hfields : s.fields = [])
    (hsingle : x.isSingle s.catalog s.root = true) : t.expr.Fixed s' := by
  have hgrows := h.grows
  cases x with
  | measure m _ path | attempt m path =>
    have hmeasure : s.measure m path = (s', .ok t) := h
    have ht : (s.measure m path).2 = .ok t := by rw [hmeasure]
    cases m with
    | path =>
      simp only [isSingle, Bool.and_eq_true, Bool.not_eq_true'] at hsingle
      obtain ⟨hresolved, htrace, -⟩ := (Scope.resolveMarked_toOne sharedPath hfields hsingle.2).2 t ht
      have hscope : s.addJoins (s.trace path).1 = s' := congrArg Prod.fst (hresolved.symm.trans hmeasure)
      rw [← hscope]
      exact Scope.fixed_trace hsingle.2 hsingle.1 htrace
    | sum | avg => exact hgrows.fixed (Scope.fixed_perRow rfl ht)
    | count | min | max => cases hsingle
  | identity field =>
    obtain ⟨rfl, rfl⟩ := h
    exact s'.fixed_rootColumn _
  | constant field v type origin =>
    obtain ⟨rfl, rfl⟩ := h
    exact fun _ _ _ _ _ _ _ _ _ _ _ => rfl
  | condition f => exact False.elim h

/-- **What a preparation puts out is fixed**, if its recipe is single-valued. -/
theorem fixed_outputOf {catalog : Catalog} {root : Entity} {r : Request} {recipe : Option Recipe} {label : String}
    {p : Prepared} (h : (prepare catalog root r recipe label).2 = .ok p)
    (hsingle : ∀ x ∈ recipe, x.isSingle catalog root = true) :
    (∀ i ∈ (outputOf p.scope p.projection).1, i.expr.Fixed p.scope) ∧
      ∀ x ∈ (outputOf p.scope p.projection).2.2, x.expr.Fixed p.scope := by
  have hfields : ∀ fields, p.projection = some fields → ∀ y ∈ fields, y.2.expr.Fixed p.scope := by
    intro fields hprojection y hy
    rcases prepare_ok h with ⟨-, hrestrict⟩ | ⟨x, st, hx, hrun, hrestrict⟩
    · obtain ⟨must, may, -, -, rfl⟩ := restrict_ok hrestrict
      cases hprojection
    · obtain ⟨-, hgrows⟩ := grows_restrict hrestrict
      obtain ⟨must, may, -, -, rfl⟩ := restrict_ok hrestrict
      unfold Recipe.projection? at hprojection
      simp only at hprojection
      split at hprojection
      · cases hprojection
      next hnamed =>
      cases hprojection
      rcases RunState.exists_step_of_mem_fields hrun y hy with ⟨hnone, -⟩ | ⟨z, hz, hname, s, s', hs, hmakes, hs'⟩
      · exact (List.not_mem_nil hnone).elim
      have hzsingle : z.isSingle s.catalog s.root = true := by
        have hall := hsingle x hx
        rw [Recipe.isSingle, Bool.or_eq_true, List.all_eq_true] at hall
        have hmade := hall.resolve_left (fun hwhole => hnamed (by rw [hwhole]; rfl)) z hz
        rw [hname] at hmade
        rw [hs.catalog, hs.root]
        exact hmade
      have hfixed := hs'.fixed (hmakes.fixed hs.fields hzsingle)
      exact hgrows.fixed (Scope.fixed_withFields hfixed _)
  cases hprojection : p.projection with
  | none =>
    simp only [outputOf, List.forall_mem_map]
    exact ⟨fun c _ => p.scope.fixed_rootColumn _, fun c _ => p.scope.fixed_rootColumn _⟩
  | some fields =>
    simp only [outputOf, List.forall_mem_map]
    exact ⟨hfields fields hprojection, hfields fields hprojection⟩

/-! ## Rows and root rows -/

namespace Statement
variable (d : Dialect) (db : Store) (q : Statement)

/-- Rows that DISTINCT would merge are of one root row. -/
def KeepsApart (column : String) : Prop :=
  q.distinct = true → ∀ x ∈ q.kept d db, ∀ y ∈ q.kept d db,
    groupKey d db (q.items.map Item.expr) x = groupKey d db (q.items.map Item.expr) y →
      d.key (x.cell ⟨q.label, column⟩) = d.key (y.cell ⟨q.label, column⟩)

instance (column : String) : Decidable (q.KeepsApart d db column) :=
  inferInstanceAs (Decidable (q.distinct = true → ∀ x ∈ q.kept d db, ∀ y ∈ q.kept d db, _ → _))

variable {d db q}

theorem length_rows_of_distinct (hgroupBy : q.groupBy = []) (hhaving : q.having = [])
    (haggregated : q.aggregated = false) (hdistinct : q.distinct = true) :
    (q.rows d db).length = ((q.kept d db).map (groupKey d db (q.items.map Item.expr))).dedup.length := by
  unfold rows
  rw [groups_of_bare hgroupBy hhaving haggregated, hdistinct]
  simp only [if_true, mergeRows, List.length_map, length_parts, List.map_map]
  refine congrArg (fun keys : List (List (Option d.Rank)) => keys.dedup.length) (List.map_congr_left fun w _ => ?_)
  simp [groupKey, Dialect.keys, Function.comp_def]

end Statement

section
variable {r : Request} {p : Prepared} {data : Plan} (hparts : DataParts r p data p.scope []) {catalog : Catalog}
  {root : Entity} (hunder : p.Under catalog root dataLabel)
include hparts hunder

theorem DataParts.kept_eq : data.statement.kept d db = (db.tuples d p.selection.root.table p.selection.label
    p.selection.joins).filter fun w => holdsAll d db p.selection.conditions [w] := by
  unfold Statement.kept
  rw [hparts.table, hparts.label, hparts.joins, hparts.conditions, ← hunder.label]
  rfl

theorem DataParts.fixed_groupBy (hselected : ∀ x ∈ (outputOf p.scope p.projection).2.2, x.expr.Fixed p.scope) :
    ∀ e ∈ data.statement.groupBy, e.Fixed p.scope := by
  intro e he
  rw [hparts.groupBy] at he
  have hidentity : p.scope.identity.expr.Fixed p.scope := p.scope.fixed_rootColumn _
  rcases of_mem_dataGrouping he with he | rfl | ⟨x, hx, rfl⟩ | ⟨o, ho, -⟩
  · rw [hunder.groupBy] at he
    split at he
    · cases he
    · rw [List.mem_singleton.1 he, ← hunder.label, ← hunder.root]
      exact hidentity
  · exact hidentity
  · exact hselected x hx
  · cases ho

variable (hclosed : p.Closed) (hnodup : (dataLabel :: data.statement.joins.map Join.label).Nodup)
  (hdb : ∀ e ∈ root :: catalog.entities, db.Identifies d e)
include hclosed hnodup hdb

theorem DataParts.groupKey_of_fixed {es : List Expr} (hes : ∀ e ∈ es, e.Fixed p.scope) {x y : Tuple}
    (hx : x ∈ db.tuples d p.selection.root.table p.selection.label p.selection.joins)
    (hy : y ∈ db.tuples d p.selection.root.table p.selection.label p.selection.joins)
    (hxy : p.selection.ident d x = p.selection.ident d y) : groupKey d db es x = groupKey d db es y := by
  have hwide : p.scope.Widens p.scope := by
    refine ⟨hclosed.scope.laid, rfl, List.prefix_rfl, ?_⟩
    rw [hunder.label, ← hparts.joins]
    exact hnodup
  have hcatalog : ∀ e ∈ p.scope.root :: p.scope.catalog.entities, db.Identifies d e := by
    rw [hunder.root, hunder.catalog]
    exact hdb
  obtain ⟨row, hrow, hxr, hyr⟩ :=
    Selection.exists_span_of_ident_eq (hcatalog _ List.mem_cons_self) hx hy hxy
  exact List.map_congr_left fun e he => congrArg d.key (hes e he p.scope hwide d db hcatalog row hrow x hxr y hyr)

omit hclosed hnodup in
theorem DataParts.countP_selects_of_free (hfree : p.restriction.having = []) :
    (db.rows root.table).countP (p.selection.selects d db) =
      ((data.statement.kept d db).map (p.selection.ident d)).dedup.length := by
  have hroot : p.selection.root = root := hunder.root
  have hkeyed := hdb root List.mem_cons_self
  rw [← hroot] at hkeyed ⊢
  rw [hparts.kept_eq hunder, Selection.length_dedup_idents hkeyed]
  refine List.countP_congr fun row _ => ?_
  have hholds : holdsAll d db p.selection.having (p.selection.kept d db row) = true := by
    rw [show p.selection.having = [] from hfree]
    rfl
  rw [Selection.selects, hholds, Bool.and_true]
  rfl

omit hnodup in
theorem DataParts.nodup_idents_of_toOne (hone : p.scope.hasToManyJoins = false) :
    ((data.statement.kept d db).map (p.selection.ident d)).Nodup := by
  have hroot : p.selection.root = root := hunder.root
  have hkeyed := hdb root List.mem_cons_self
  rw [← hroot] at hkeyed
  have hcatalog : ∀ e ∈ p.scope.catalog.entities, db.Identifies d e := by
    rw [hunder.catalog]
    exact fun e he => hdb e (List.mem_cons_of_mem root he)
  have hsingle : ∀ row, (p.selection.span d db row).length = 1 := fun row =>
    length_joined (hclosed.scope.laid.keyed hcatalog hone) _
  rw [hparts.kept_eq hunder]
  exact List.pairwise_map.2 ((Selection.pairwise_ident_of_single hkeyed hsingle).filter _)

/-- Without a grouping, only DISTINCT can leave fewer rows than root rows are selected. -/
theorem DataParts.length_rows_of_bare (hitems : ∀ i ∈ (outputOf p.scope p.projection).1, i.expr.Fixed p.scope)
    (hbare : data.statement.groupBy = []) :
    (data.statement.rows d db).length ≤ (db.rows root.table).countP (p.selection.selects d db) ∧
      ((data.statement.rows d db).length = (db.rows root.table).countP (p.selection.selects d db) ↔
        data.statement.KeepsApart d db root.identityColumn) := by
  obtain ⟨-, haggregated⟩ := hparts.plain_of_bare hclosed hbare
  have hfree := (free_of_dataGrouping_eq_nil (hparts.groupBy.symm.trans hbare)).1
  have hhaving := hparts.having.trans hfree
  have hcount := hparts.countP_selects_of_free hunder hdb hfree
  cases hdistinct : data.statement.distinct with
  | true =>
    have hitem : ∀ e ∈ data.statement.items.map Item.expr, e.Fixed p.scope := by
      obtain ⟨extra, hall, hextra⟩ := hparts.items
      rw [hdistinct, if_pos rfl] at hextra
      rw [hall, hextra, List.forall_mem_map]
      simpa [extraItems] using hitems
    have hsame : ∀ x ∈ data.statement.kept d db, ∀ y ∈ data.statement.kept d db,
        p.selection.ident d x = p.selection.ident d y →
          groupKey d db (data.statement.items.map Item.expr) x =
            groupKey d db (data.statement.items.map Item.expr) y := by
      rw [hparts.kept_eq hunder]
      exact fun x hx y hy => hparts.groupKey_of_fixed hunder hclosed hnodup hdb hitem (List.mem_filter.1 hx).1
        (List.mem_filter.1 hy).1
    have hle := length_dedup_le hsame
    have hlabel : data.statement.label = p.selection.label := hparts.label.trans hunder.label.symm
    have hroot : p.selection.root = root := hunder.root
    rw [Statement.length_rows_of_distinct hbare hhaving haggregated hdistinct, hcount]
    refine ⟨hle.1, hle.2.trans ?_⟩
    rw [Statement.KeepsApart, hdistinct, hlabel, ← hroot]
    exact ⟨fun h _ => h, fun h => h rfl⟩
  | false =>
    have hone : p.scope.hasToManyJoins = false := by
      rw [hparts.distinct, hbare] at hdistinct
      simpa using hdistinct
    have hlength : (data.statement.rows d db).length = (db.rows root.table).countP (p.selection.selects d db) := by
      rw [hcount, (hparts.nodup_idents_of_toOne hunder hclosed hdb hone).dedup,
        Statement.rows_of_bare hbare hhaving haggregated hdistinct]
      simp
    exact ⟨hlength.le, iff_of_true hlength fun h => by rw [hdistinct] at h; cases h⟩

/-- **With a grouping, the rows are the root rows selected.** -/
theorem DataParts.length_rows_of_grouped (hselected : ∀ x ∈ (outputOf p.scope p.projection).2.2, x.expr.Fixed p.scope)
    (hgrouped : data.statement.groupBy ≠ []) :
    (data.statement.rows d db).length = (db.rows root.table).countP (p.selection.selects d db) := by
  have hdistinct : data.statement.distinct = false := by
    rw [hparts.distinct, List.isEmpty_eq_false_iff.2 hgrouped, Bool.and_false]
  have hroot : p.selection.root = root := hunder.root
  have hkeyed := hdb root List.mem_cons_self
  rw [← hroot] at hkeyed ⊢
  have hgroups : data.statement.groups d db = pick (fun w => holdsAll d db p.selection.conditions [w]) false
      data.statement.aggregated (groupKey d db data.statement.groupBy) (holdsAll d db p.selection.having)
      ((db.rows p.selection.root.table).flatMap (p.selection.span d db)) := by
    rw [← Selection.tuples_eq]
    unfold Statement.groups
    rw [List.isEmpty_eq_false_iff.2 hgrouped, hparts.table, hparts.joins, hparts.conditions, hparts.having,
      hparts.label, ← hunder.label]
    rfl
  have hrows : (data.statement.rows d db).length = (data.statement.groups d db).length := by
    unfold Statement.rows
    rw [hdistinct]
    simp
  rw [hrows, hgroups]
  refine length_pick (fun row _ w hw => Selection.ident_of_mem_span hw) hkeyed.apart _ _ _ _ fun x hx y hy => ?_
  rw [← Selection.tuples_eq] at hx hy
  constructor
  · intro hxy
    have hid := eval_eq_of_groupKey_eq hxy (hparts.identity_mem_groupBy hunder hgrouped)
    simp only [Expr.col, Expr.eval, List.headD_cons] at hid
    exact hid
  · exact hparts.groupKey_of_fixed hunder hclosed hnodup hdb (hparts.fixed_groupBy hunder hselected)
      (List.mem_filter.1 hx).1 (List.mem_filter.1 hy).1

/-- All joined rows of a root row fall in one group, so the rows are drawn of the root rows selected. -/
theorem DataParts.draws_of_fixed (hselected : ∀ x ∈ (outputOf p.scope p.projection).2.2, x.expr.Fixed p.scope)
    {row : Row} (hrow : row ∈ db.rows root.table) :
    data.statement.draws d db root.identityColumn (row root.identityColumn) = p.selection.selects d db row := by
  have hroot := hdb root List.mem_cons_self
  rw [Bool.eq_iff_iff, hparts.draws_iff hunder hroot hrow, hparts.selects_iff hunder hclosed hroot hrow]
  refine exists_part_iff fun x hx y hy => ?_
  have htuple : ∀ w, w ∈ data.statement.keptOf d db root.identityColumn (row root.identityColumn) →
      w ∈ db.tuples d p.selection.root.table p.selection.label p.selection.joins ∧
        p.selection.ident d w = d.key (row root.identityColumn) := fun w hw => by
    obtain ⟨hkept, hof⟩ := List.mem_filter.1 hw
    rw [hparts.kept_eq hunder] at hkept
    refine ⟨(List.mem_filter.1 hkept).1, ?_⟩
    have hident := of_decide_eq_true hof
    rw [hparts.label, ← hunder.label, ← hunder.root] at hident
    rw [← hunder.root]
    exact hident
  exact hparts.groupKey_of_fixed hunder hclosed hnodup hdb (hparts.fixed_groupBy hunder hselected)
    (htuple y hy).1 (htuple x hx).1 ((htuple y hy).2.trans (htuple x hx).2.symm)

/-- **Rows against root rows selected**, where all that is put out is fixed. -/
theorem DataParts.length_rows (hitems : ∀ i ∈ (outputOf p.scope p.projection).1, i.expr.Fixed p.scope)
    (hselected : ∀ x ∈ (outputOf p.scope p.projection).2.2, x.expr.Fixed p.scope) :
    (data.statement.rows d db).length ≤ (db.rows root.table).countP (p.selection.selects d db) ∧
      ((data.statement.rows d db).length = (db.rows root.table).countP (p.selection.selects d db) ↔
        data.statement.KeepsApart d db root.identityColumn) := by
  by_cases hgrouped : data.statement.groupBy = []
  · exact hparts.length_rows_of_bare hunder hclosed hnodup hdb hitems hgrouped
  · have hlength := hparts.length_rows_of_grouped hunder hclosed hnodup hdb hselected hgrouped
    refine ⟨hlength.le, iff_of_true hlength fun hdistinct => ?_⟩
    rw [hparts.distinct, List.isEmpty_eq_false_iff.2 hgrouped, Bool.and_false] at hdistinct
    cases hdistinct

end

/-! ## The number of rows and the total -/

/-- **Where every field has one value for each root row, rows are missing from the total's number just where DISTINCT
merges root rows.**  A request without an ordering, with identities that tell rows apart and labels that differ: the
total is the number of root rows that the rows are drawn of, and there are as many rows, unless the rows are DISTINCT
and root rows that are put out alike are among them; then there are fewer. -/
theorem row_count_eq_total_iff {catalog : Catalog} {root : Entity} {caps : Capabilities} {r : Request}
    {recipe : Option Recipe} {requireProjection : Bool} {plan : PagePlan}
    (h : (PagePlan.build catalog root caps r true recipe requireProjection).2 = .ok plan) (hr : r.ordering = [])
    (hsingle : ∀ x ∈ recipe, x.isSingle catalog root = true)
    (hnodup : (dataLabel :: plan.data.statement.joins.map Join.label).Nodup)
    (hdb : ∀ e ∈ root :: catalog.entities, db.Identifies d e) :
    ∃ count n, plan.count = some count ∧ count.statement.value d db = some (countValue n) ∧
      n = (db.rows root.table).countP (fun row =>
        plan.data.statement.draws d db root.identityColumn (row root.identityColumn)) ∧
      (plan.data.statement.rows d db).length ≤ n ∧
      ((plan.data.statement.rows d db).length = n ↔ plan.data.statement.KeepsApart d db root.identityColumn) := by
  obtain ⟨p, hprepare, hdata, hcount⟩ := build_ok h
  obtain ⟨count, hsome, hcount⟩ := hcount rfl
  obtain ⟨s, orders, hparts⟩ := dataPlan_ok hdata
  have hordering := hparts.ordering
  rw [orderTerms_of_unordered hr] at hordering
  cases hordering
  have hclosed := closed_prepare hprepare
  have hunder := under_prepare hprepare
  obtain ⟨hitems, hselected⟩ := fixed_outputOf hprepare hsingle
  obtain ⟨⟨conditions, hstatement⟩, hadmits⟩ := admits_countPlan hprepare hparts hcount
  have hroot := hdb root List.mem_cons_self
  have hvalue : count.statement.value d db =
      some (countValue ((db.rows root.table).countP (p.selection.selects d db))) := by
    rw [hstatement, value_countStatement hroot, ← hstatement]
    congr 2
    exact List.countP_congr fun row hrow => by rw [hadmits d db hroot row hrow]
  have hdraws : (db.rows root.table).countP (p.selection.selects d db) = (db.rows root.table).countP fun row =>
      plan.data.statement.draws d db root.identityColumn (row root.identityColumn) :=
    List.countP_congr fun row hrow => by rw [hparts.draws_of_fixed hunder hclosed hnodup hdb hselected hrow]
  exact ⟨count, _, hsome, hvalue, hdraws, hparts.length_rows hunder hclosed hnodup hdb hitems hselected⟩

/-! ## Names of spenders -/

namespace Sample

def spenders : Request := { Request.all with required := [⟨"orders.amount", .numeric (.above (.integer 4))⟩] }

def nameOnly : Recipe := ⟨[.measure .path (some "name") "name"], false⟩

def namesakes : Store where
  rows
    | "persons" => [row [("id", .int64 1), ("name", .text "Ada")], row [("id", .int64 2), ("name", .text "Ada")]]
    | "orders" =>
      [row [("id", .int64 10), ("person_id", .int64 1), ("amount", .int64 5)],
        row [("id", .int64 11), ("person_id", .int64 2), ("amount", .int64 7)]]
    | _ => []

end Sample

open Sample in
/-- Both of Ada's orders count, and DISTINCT leaves her name once: one row, and a total of one. -/
theorem spenders_by_name :
    spenders.ordering = [] ∧ nameOnly.isSingle catalog person = true ∧
    ∃ plan count,
      (PagePlan.build catalog person Backend.postgres.capabilities spenders true (some nameOnly) false).2 = .ok plan ∧
      ((dataLabel :: plan.data.statement.joins.map Join.label).Nodup ∧ plan.data.statement.distinct = true ∧
        plan.data.statement.KeepsApart .plain store "id" ∧
        (plan.data.statement.kept .plain store).length = 2) ∧
      (∀ e ∈ person :: catalog.entities, store.Identifies .plain e) ∧ plan.count = some count ∧
      count.statement.value .plain store = some (countValue (plan.data.statement.rows .plain store).length) ∧
      (plan.data.statement.rows .plain store).map ResultRow.cells = [[some (.text "Ada")]] := by
  have hsingle : nameOnly.isSingle catalog person = true := by decide +kernel
  have hdb : ∀ e ∈ person :: catalog.entities, store.Identifies .plain e := by decide +kernel
  obtain ⟨plan, hplan, hjoined, hcells⟩ := exists_ok
    (P := fun plan : PagePlan =>
      ((dataLabel :: plan.data.statement.joins.map Join.label).Nodup ∧ plan.data.statement.distinct = true ∧
        plan.data.statement.KeepsApart .plain store "id" ∧ (plan.data.statement.kept .plain store).length = 2) ∧
      (plan.data.statement.rows .plain store).map ResultRow.cells = [[some (.text "Ada")]])
    (x := (PagePlan.build catalog person Backend.postgres.capabilities spenders true (some nameOnly) false).2)
    (by decide +kernel)
  obtain ⟨count, n, hcount, hvalue, -, -, hlength⟩ := row_count_eq_total_iff hplan rfl
    (fun x hx => by obtain rfl := Option.mem_some_iff.1 hx; exact hsingle) hjoined.1 hdb
  refine ⟨rfl, hsingle, plan, count, hplan, hjoined, hdb, hcount, ?_, hcells⟩
  rw [hvalue, hlength.2 hjoined.2.2.1]

open Sample in
/-- Of two spenders of one name DISTINCT leaves one row, and the total is two. -/
theorem namesakes_in_one_row :
    (∀ e ∈ person :: catalog.entities, namesakes.Identifies .plain e) ∧ spenders.ordering = [] ∧
    nameOnly.isSingle catalog person = true ∧
    ∃ plan, (PagePlan.build catalog person Backend.postgres.capabilities spenders true (some nameOnly) false).2 =
        .ok plan ∧
      (dataLabel :: plan.data.statement.joins.map Join.label).Nodup ∧
      (plan.data.statement.rows .plain namesakes).map ResultRow.cells = [[some (.text "Ada")]] ∧
      ∃ count ∈ plan.count, count.statement.value .plain namesakes = some (countValue 2) ∧
        count.statement.value .plain namesakes ≠
          some (countValue (plan.data.statement.rows .plain namesakes).length) :=
  ⟨by decide +kernel, rfl, by decide +kernel, exists_ok (by decide +kernel)⟩

end PageQuery
