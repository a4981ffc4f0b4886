import Mathlib.Data.Finset.Max
import PageQuery.Proofs.Held
import PageQuery.Proofs.JoinLabels
import PageQuery.Proofs.PerIdentity
import PageQuery.Proofs.Scoping
/-!
# The sort key of a collection

A collection sorts by the least of its values upwards and by the greatest downwards, over the joined rows that a
grouping puts together.  The rows of a group show all that the collection holds for their root row as long as what rows
are selected and grouped by leaves alone the joins that the collection is reached through; what reads rows behind a
to-many join of its path leaves only some of them, and the key is of these.
-/
namespace PageQuery

variable {d : Dialect} {db : Store}

/-! ## The least and the greatest -/

namespace Dialect

theorem key_least (d : Dialect) (vs : List Value) : d.key (d.least vs) = (vs.map d.rank).toFinset.min := by
  induction vs with
  | nil => rfl
  | cons v vs ih =>
    rw [List.map_cons, List.toFinset_cons, Finset.min_insert, ← ih, least]
    cases d.least vs with
    | none => exact (min_top_right (d.rank v : WithTop d.Rank)).symm
    | some w =>
      have hmin : (d.key (some w) : WithTop d.Rank) = (d.rank w : WithTop d.Rank) := rfl
      rw [hmin, ← WithTop.coe_min, min_comm, min_def_lt]
      simp only
      split <;> rfl

theorem key_greatest (d : Dialect) (vs : List Value) : d.key (d.greatest vs) = (vs.map d.rank).toFinset.max := by
  induction vs with
  | nil => rfl
  | cons v vs ih =>
    rw [List.map_cons, List.toFinset_cons, Finset.max_insert, ← ih, greatest]
    cases d.greatest vs with
    | none => exact (max_bot_right (d.rank v : WithBot d.Rank)).symm
    | some w =>
      have hmax : (d.key (some w) : WithBot d.Rank) = (d.rank w : WithBot d.Rank) := rfl
      rw [hmax, ← WithBot.coe_max, max_def_lt]
      simp only
      split <;> rfl

/-- The least and the greatest of cells rank as the values among them do, whatever their order and number. -/
theorem key_aggregate_of_mem {f : Function} (hf : f = .min ∨ f = .max) {cs cs' : List Cell}
    (h : ∀ v : Value, some v ∈ cs ↔ some v ∈ cs') : d.key (d.aggregate f cs) = d.key (d.aggregate f cs') := by
  have hranks : ((cs.filterMap id).map d.rank).toFinset = ((cs'.filterMap id).map d.rank).toFinset := by
    ext k
    simp only [List.mem_toFinset, List.mem_map, List.mem_filterMap, id_eq, exists_eq_right, h]
  rcases hf with rfl | rfl
  · exact (d.key_least _).trans ((congrArg Finset.min hranks).trans (d.key_least _).symm)
  · exact (d.key_greatest _).trans ((congrArg Finset.max hranks).trans (d.key_greatest _).symm)

end Dialect

/-! ## Rows chosen behind a path -/

/-- **Other rows can be chosen along a path**, as far as labels go that nothing else needs: they hold the to-many joins
of the path and with a label those of all joins owned by it.  A joined row then has a companion that shows, along the
path, whatever rows fit there, and under all other labels the same rows. -/
theorem Tuple.exists_companion {label : String} {row : Row} {js path : List Join} {far : List String}
    (horder : Join.InOrder [label] js) (hnodup : (label :: js.map Join.label).Nodup) (hpath : ∀ j ∈ path, j ∈ js)
    (hpathOrder : Join.InOrder [label] path) (hlabel : label ∉ far)
    (hlater : ∀ j ∈ js, j.owner.source ∈ far → j.label ∈ far)
    (hkeyed : ∀ j ∈ path, j.label ∉ far → db.Keyed d j.table j.column) {w : Tuple}
    (hw : w ∈ Tuple.joined d db js [(label, row)]) {ψ : String → Row} (hψ : ψ label = row)
    (hfits : ∀ j ∈ path, j.Fits d db ψ) :
    ∃ v ∈ Tuple.joined d db js [(label, row)],
      (∀ l ∈ label :: js.map Join.label, l ∉ far → v.rowOf l = w.rowOf l) ∧
        ∀ j ∈ path, v.rowOf j.label = ψ j.label := by
  obtain ⟨hrow, hwfits⟩ := fits_of_mem_span horder hnodup hw
  have hnear : ∀ j ∈ js, j.label ∉ far → j.owner.source ∉ far := fun j hj hl howner => hl (hlater j hj howner)
  -- outside of these labels the path is along identities
  have hagree : ∀ j ∈ path, j.label ∉ far → ψ j.label = w.rowOf j.label := by
    refine choices_agree (T := fun l => l ∉ far) hpathOrder (fun l hl _ => ?_) hfits fun j hj hl => ?_
    · rw [List.mem_singleton.1 hl, hψ, hrow]
    · exact ⟨hnear j (hpath j hj) hl, hwfits j (hpath j hj), hkeyed j hj hl⟩
  let χ : String → Row := fun l => if l ∈ far then ψ l else w.rowOf l
  have hχfar : ∀ l ∉ far, χ l = w.rowOf l := fun l hl => if_neg hl
  have hχlabel : χ label = row := (hχfar label hlabel).trans hrow
  have hχpath : ∀ j ∈ path, χ j.label = ψ j.label := fun j hj => by
    by_cases hl : j.label ∈ far
    · exact if_pos hl
    · rw [hχfar _ hl, hagree j hj hl]
  have howners : ∀ j ∈ path, (j.owner.source = label ∨ ∃ k ∈ path, k.label = j.owner.source) ∧
      χ j.owner.source = ψ j.owner.source := fun j hj => by
    rcases List.mem_append.1 (hpathOrder.owner_mem hj) with hroot | hmem
    · rw [List.mem_singleton.1 hroot]
      exact ⟨.inl rfl, hχlabel.trans hψ.symm⟩
    · obtain ⟨k, hk, hkj⟩ := List.mem_map.1 hmem
      exact ⟨.inr ⟨k, hk, hkj⟩, hkj ▸ hχpath k hk⟩
  have hchoice : ∀ j ∈ js, (j.label ∉ far ∨ ∃ k ∈ path, k.label = j.label) →
      (j.owner.source ∉ far ∨ ∃ k ∈ path, k.label = j.owner.source) ∧ j.Fits d db χ := fun j hj hl => by
    by_cases hfar : j.label ∈ far
    · obtain ⟨k, hk, hkj⟩ := hl.resolve_left fun h => h hfar
      obtain rfl := List.inj_on_of_nodup_map (List.nodup_cons.1 hnodup).2 (hpath k hk) hj hkj
      obtain ⟨howner, hsame⟩ := howners k hk
      exact ⟨howner.imp_left fun h => by rw [h]; exact hlabel, (hfits k hk).congr (hχpath k hk) hsame⟩
    · have howner := hnear j hj hfar
      exact ⟨.inl howner, (hwfits j hj).congr (hχfar _ hfar) (hχfar _ howner)⟩
  have hseen : ∀ l ∈ [label], l ∈ List.map Prod.fst [(label, row)] := fun _ hl => hl
  have hstart : ∀ l ∈ List.map Prod.fst [(label, row)], (l ∉ far ∨ ∃ k ∈ path, k.label = l) →
      Tuple.rowOf [(label, row)] l = χ l := fun l hl _ => by
    rw [List.mem_singleton.1 hl, hχlabel]
    simp [rowOf]
  obtain ⟨v, hv, hchosen⟩ := exists_mem_joined horder hseen hnodup hchoice hstart
  refine ⟨v, hv, fun l hl hfar => (hchosen l hl (.inl hfar)).trans (hχfar l hfar), fun j hj => ?_⟩
  have hmem : j.label ∈ label :: js.map Join.label := List.mem_cons_of_mem _ (List.mem_map_of_mem (hpath j hj))
  exact (hchosen _ hmem (.inr ⟨j, hj, rfl⟩)).trans (hχpath j hj)

/-! ## Statements that leave a path alone -/

/-- What a path is reached through is left alone: some labels hold its to-many joins and with a label those of all joins
owned by it, and neither the conditions nor the grouping read a column under any of them. -/
structure Statement.LeavesAlone (q : Statement) (path : List KeyedJoin) (far : List String) : Prop where
  many : ∀ j ∈ path, j.join.toMany = true → j.join.label ∈ far
  later : ∀ j ∈ q.joins, j.owner.source ∈ far → j.label ∈ far
  unread : ∀ e ∈ q.conditions ++ q.groupBy, ∀ c ∈ e.columns, c.source ∉ far

instance (q : Statement) (path : List KeyedJoin) (far : List String) : Decidable (q.LeavesAlone path far) :=
  decidable_of_iff ((∀ j ∈ path, j.join.toMany = true → j.join.label ∈ far) ∧
      (∀ j ∈ q.joins, j.owner.source ∈ far → j.label ∈ far) ∧
        ∀ e ∈ q.conditions ++ q.groupBy, ∀ c ∈ e.columns, c.source ∉ far)
    ⟨fun h => ⟨h.1, h.2.1, h.2.2⟩, fun h => ⟨h.many, h.later, h.unread⟩⟩

namespace Statement
variable {q : Statement} {column : String} {path : List KeyedJoin} {far : List String}
  (hclosed : q.body.Closed [] (Subquery.About ⟨q.label, column⟩)) (hfree : q.LeavesAlone path far)
  (hidentity : Expr.col q.label column ∈ q.groupBy)
include hfree hidentity

theorem LeavesAlone.label_notMem : q.label ∉ far :=
  hfree.unread _ (List.mem_append_right _ hidentity) ⟨q.label, column⟩ List.mem_cons_self

include hclosed

theorem LeavesAlone.eval_eq {w v : Tuple} (hw : w ∈ db.tuples d q.table q.label q.joins)
    (hv : v ∈ db.tuples d q.table q.label q.joins)
    (hsame : ∀ l ∈ q.label :: q.joins.map Join.label, l ∉ far → v.rowOf l = w.rowOf l) :
    ∀ e ∈ q.conditions ++ q.groupBy, e.eval d db [v] = e.eval d db [w] := by
  have halike : v.Alike (fun l => labelsOf q.label q.joins l ∧ l ∉ far) w := by
    rintro l ⟨hl, hfar⟩
    obtain ⟨r, hr⟩ := Option.isSome_iff_exists.1 (shows_of_mem_tuples hv l hl)
    obtain ⟨t, ht⟩ := Option.isSome_iff_exists.1 (shows_of_mem_tuples hw l hl)
    have hrow := hsame l hl hfar
    rw [Tuple.rowOf, Tuple.rowOf, hr, ht] at hrow
    rw [hr, ht]
    exact congrArg some hrow
  intro e he
  have hclause : e ∈ q.body.clauses := by
    rcases List.mem_append.1 he with he | he <;> simp [body, he]
  have hsees : e.Sees d db fun l => labelsOf q.label q.joins l ∧ l ∉ far := by
    refine Expr.sees_of_columns (fun c hc => ⟨?_, hfree.unread e he c hc⟩) fun p hp x y hxy => ?_
    · by_contra hforeign
      have hmem : c ∈ q.body.foreign :=
        List.mem_filter.2 ⟨List.mem_flatMap.2 ⟨e, hclause, hc⟩, decide_eq_true hforeign⟩
      rw [hclosed.foreign] at hmem
      cases hmem
    · exact (hclosed.subqueries e hclause p hp).eval_congr ⟨List.mem_cons_self, hfree.label_notMem hidentity⟩ hxy
  exact hsees [v] [w] (.cons halike .nil)

theorem LeavesAlone.mem_group {g : List Tuple} (hg : g ∈ q.groups d db) {w v : Tuple} (hw : w ∈ g)
    (hv : v ∈ db.tuples d q.table q.label q.joins)
    (hsame : ∀ l ∈ q.label :: q.joins.map Join.label, l ∉ far → v.rowOf l = w.rowOf l) : v ∈ g := by
  have hgrouped : q.groupBy.isEmpty = false := List.isEmpty_eq_false_iff.2 (List.ne_nil_of_mem hidentity)
  unfold groups at hg
  rw [hgrouped] at hg
  obtain ⟨z, -, rfl⟩ := mem_parts_keys.1 (mem_pick.1 hg).1
  obtain ⟨hwkept, hwz⟩ := List.mem_filter.1 hw
  obtain ⟨hwtuple, hwholds⟩ := List.mem_filter.1 hwkept
  have heval := hfree.eval_eq hclosed hidentity hwtuple hv hsame
  have hholds : holdsAll d db q.conditions [v] = true := List.all_eq_true.2 fun e he => by
    rw [heval e (List.mem_append_left _ he)]
    exact List.all_eq_true.1 hwholds e he
  have hkey : groupKey d db q.groupBy v = groupKey d db q.groupBy w :=
    List.map_congr_left fun e he => congrArg d.key (heval e (List.mem_append_right _ he))
  exact List.mem_filter.2 ⟨List.mem_filter.2 ⟨hv, hholds⟩, decide_eq_true (hkey.trans (of_decide_eq_true hwz))⟩

/-- **A group shows the whole collection** of its root row. -/
theorem LeavesAlone.mem_cells (hnodup : (q.label :: q.joins.map Join.label).Nodup) {s : Scope} {names : List String}
    {l : String} {v : ValueTable} (hlabel : s.label = q.label) (hshows : s.Shows path names l v)
    (hpathNodup : (s.label :: path.map fun j => j.join.label).Nodup) (hpath : ∀ j ∈ path, j.join ∈ q.joins)
    (hpathOrder : Join.InOrder [q.label] (path.map KeyedJoin.join))
    (hkeyed : ∀ j ∈ path, j.join.toMany = false → db.Keyed d j.join.table j.join.column) {g : List Tuple}
    (hg : g ∈ q.groups d db) (hne : g ≠ []) {row : Row} (hrow : row ∈ db.rows q.table)
    (hof : ∀ w ∈ g, w.lookup q.label = some row) (x : Value) :
    some x ∈ g.map (fun w => (Expr.col l v.value).eval d db [w]) ↔
      some x ∈ db.held d s.catalog s.root names row := by
  have horder : Join.InOrder [q.label] q.joins := hclosed.joins
  have hcell : ∀ w : Tuple, (Expr.col l v.value).eval d db [w] = w.rowOf l v.value := fun w => by
    simp only [Expr.col, Expr.eval, List.headD_cons, Tuple.cell_eq]
  have hspan : ∀ w ∈ g, w ∈ Tuple.joined d db q.joins [(q.label, row)] := fun w hw => by
    have htuple := (List.mem_filter.1 (mem_of_mem_parts (mem_pick.1 hg).1 hw)).1
    obtain ⟨t, -, ht⟩ := List.mem_flatMap.1 htuple
    have hwrow := (Tuple.fits_of_mem_span horder hnodup ht).1
    rw [Tuple.rowOf, hof w hw] at hwrow
    rwa [show row = t from hwrow]
  simp only [List.mem_map, hcell]
  constructor
  · rintro ⟨w, hw, hwx⟩
    obtain ⟨hwrow, hfits⟩ := Tuple.fits_of_mem_span horder hnodup (hspan w hw)
    rcases hshows.sound d db w.rowOf fun j hj => hfits _ (hpath j hj) with hnone | hheld
    · rw [hnone] at hwx
      cases hwx
    · rwa [hwx, hlabel, hwrow] at hheld
  · intro hheld
    obtain ⟨ψ, hψ, hfits, hψx⟩ := hshows.complete hpathNodup d db row _ hheld
    obtain ⟨w, hw⟩ := List.exists_mem_of_ne_nil g hne
    -- a companion of any joined row of the group that shows the cell is of the group
    have hidentities : ∀ j ∈ path.map KeyedJoin.join, j.label ∉ far → db.Keyed d j.table j.column :=
      List.forall_mem_map.2 fun j hj hfar => hkeyed j hj (Bool.eq_false_iff.2 fun hmany => hfar (hfree.many j hj hmany))
    obtain ⟨u, hu, hsame, hchosen⟩ := Tuple.exists_companion horder hnodup (List.forall_mem_map.2 hpath) hpathOrder
      (hfree.label_notMem hidentity) hfree.later hidentities (hspan w hw) (hlabel ▸ hψ) (List.forall_mem_map.2 hfits)
    obtain ⟨j, hj, hjl⟩ := hshows.made
    refine ⟨u, hfree.mem_group hclosed hidentity hg hw (List.mem_flatMap.2 ⟨row, hrow, hu⟩) hsame, ?_⟩
    rw [← hψx, ← hjl, hchosen _ (List.mem_map_of_mem hj)]

end Statement

/-! ## Sort keys made of collections -/

/-- The sort key is made of the collection that the entry's path leads to, which joins of the scope show. -/
structure OrderTerm.OfCollection (b s : Scope) (o : Ordering) (v : ValueTable) (l : String) (x : OrderTerm) : Prop where
  term : x = ⟨collapse ⟨Expr.col l v.value, v.type, .collection⟩ o.ascending, o.ascending⟩
  shows : b.Shows (b.trace (sharedPath o.path)).1 (splitText '.' o.path) l v
  distinct : ((b.trace (sharedPath o.path)).1.map KeyedJoin.key).Nodup
  unmarked : ∀ j ∈ (b.trace (sharedPath o.path)).1, '@' ∉ j.key.toList
  keys : ∀ j ∈ (b.trace (sharedPath o.path)).1, j.key ∈ s.joins.map KeyedJoin.key

theorem Scope.readTarget_ofCollection {b s : Scope} {o : Ordering} {v : ValueTable} {t : Term} (hbase : s.base = b)
    (hfields : s.fields = []) (hunmarked : hasChar '@' o.path = false)
    (hv : b.catalog.tableAlong? b.root (splitText '.' o.path) = some v) (h : (s.readTarget o.path).2 = .ok t) :
    ∃ l, OrderTerm.OfCollection b (s.readTarget o.path).1 o v l ⟨collapse t o.ascending, o.ascending⟩ := by
  subst hbase
  obtain ⟨a, hterminal, -, -⟩ := resolveMarked_ok hfields h
  obtain ⟨segments, p, name, marker, hparse, -, hmarker, -⟩ := terminal_ok hterminal
  have hlast := notMem_last_of_unmarked hparse hunmarked
  obtain ⟨rfl, -⟩ := parseMarker_unmarked hmarker hlast
  obtain ⟨hresolved, htrace, l, rfl, hshows⟩ := readTarget_shows hfields hunmarked hv h
  refine ⟨l, rfl, ?_, ?_, ?_, ?_⟩ <;> rw [trace_base]
  · exact ⟨hshows.made, hshows.sound, hshows.complete⟩
  · exact trace_keys htrace
  · exact trace_unmarked (parse_marked (by decide) hparse) (parseMarker_shared _ hmarker hlast) (by decide)
      (notMem_of_unmarked hparse hunmarked)
  · rw [hresolved]
    exact fun j hj => key_mem_addJoins hj

section
variable {r : Request} {p : Prepared} {data : Plan} {s : Scope} {orders : List OrderTerm}
  (hparts : DataParts r p data s orders)
include hparts

theorem DataParts.grouped_of_aggregate {x : OrderTerm} (hx : x ∈ orders) (hagg : x.term.isAggregate = true) :
    data.statement.groupBy ≠ [] ∧ data.statement.distinct = false := by
  have hgrouped : data.statement.groupBy ≠ [] := fun hbare => by
    have hfree := (free_of_dataGrouping_eq_nil (hparts.groupBy.symm.trans hbare)).2.2 x hx
    rw [hagg] at hfree
    cases hfree
  refine ⟨hgrouped, ?_⟩
  rw [hparts.distinct, List.isEmpty_eq_false_iff.2 hgrouped, Bool.and_false]

variable {catalog : Catalog} {root : Entity} (hunder : p.Under catalog root dataLabel) {o : Ordering} {v : ValueTable}
include hunder

theorem DataParts.ofCollection {i : Nat} (ho : r.ordering[i]? = some o) (hfields : p.scope.fields = [])
    (hlimit : r.limit ≠ some 1) (hunmarked : hasChar '@' o.path = false)
    (hv : catalog.tableAlong? root (splitText '.' o.path) = some v) :
    ∃ x l, orders[i]? = some x ∧ OrderTerm.OfCollection (Scope.new catalog root dataLabel) s o v l x := by
  have hall := orderTerms_forall₂ (I := fun s => s.base = Scope.new catalog root dataLabel ∧ s.fields = [])
    (P := fun s o x => hasChar '@' o.path = false → ∀ v, catalog.tableAlong? root (splitText '.' o.path) = some v →
      ∃ l, OrderTerm.OfCollection (Scope.new catalog root dataLabel) s o v l x)
    (fun o _ s hs => by
      have hgrows := Scope.grows_readTarget s o.path
      exact ⟨hgrows.base.trans hs.1, hgrows.fields.trans hs.2⟩)
    (fun hgrows hx hunmarked v hv => by
      obtain ⟨l, hl⟩ := hx hunmarked v hv
      exact ⟨l, hl.term, hl.shows, hl.distinct, hl.unmarked, fun j hj =>
        (hgrows.joins.map KeyedJoin.key).subset (hl.keys j hj)⟩)
    (fun o _ s t hs ht hunmarked v hv => Scope.readTarget_ofCollection hs.1 hs.2 hunmarked hv ht)
    ⟨hunder.base, hfields⟩ hlimit hparts.ordering
  obtain ⟨hi, rfl⟩ := List.getElem?_eq_some_iff.1 ho
  have hi' : i < orders.length := hall.length_eq ▸ hi
  obtain ⟨l, hl⟩ := hall.get hi hi' hunmarked v hv
  exact ⟨_, l, List.getElem?_eq_getElem hi', hl⟩

/-- The cells that a group shows of the collection are those that it holds for the group's root row. -/
theorem DataParts.mem_cells (hclosed : p.Closed) (hgrouped : data.statement.groupBy ≠ [])
    (hnodup : (dataLabel :: data.statement.joins.map Join.label).Nodup)
    (hdb : ∀ e ∈ root :: catalog.entities, db.Identifies d e) {far : List String}
    (hfree : data.statement.LeavesAlone ((Scope.new catalog root dataLabel).trace (sharedPath o.path)).1 far)
    {l : String} {x : OrderTerm} (hkey : OrderTerm.OfCollection (Scope.new catalog root dataLabel) s o v l x)
    {g : List Tuple} (hg : g ∈ data.statement.groups d db) {row : Row} (hrow : row ∈ db.rows root.table)
    (hof : ∀ w ∈ g, w.lookup dataLabel = some row) (y : Value) :
    some y ∈ g.map (fun w => (Expr.col l v.value).eval d db [w]) ↔
      some y ∈ db.held d catalog root (splitText '.' o.path) row := by
  have hroot : p.selection.root = root := hunder.root
  have hlabel : p.selection.label = dataLabel := hunder.label
  have hidentity := hparts.identity_mem_groupBy hunder hgrouped
  rw [hroot, hlabel, ← hparts.label] at hidentity
  have hbody : data.statement.body.Closed [] (Subquery.About ⟨data.statement.label, root.identityColumn⟩) := by
    rw [hparts.label]
    exact (hparts.closed hclosed hunder).imp fun q hq => hq.1
  have htable : data.statement.table = root.table := by
    rw [hparts.table, hparts.grows.root, hunder.root]
  have hbase : s.base = Scope.new catalog root dataLabel := hparts.grows.base.trans hunder.base
  obtain ⟨hbcatalog, hbroot, hblabel⟩ : (Scope.new catalog root dataLabel).catalog = catalog ∧
      (Scope.new catalog root dataLabel).root = root ∧ (Scope.new catalog root dataLabel).label = dataLabel :=
    ⟨rfl, rfl, rfl⟩
  obtain ⟨-, hshows, hdistinct, hplain, hkeys⟩ := hkey
  generalize sharedPath o.path = target at hfree hshows hdistinct hplain hkeys
  generalize Scope.new catalog root dataLabel = b at hfree hshows hdistinct hplain hkeys hbase hbcatalog hbroot hblabel
  -- the joins of the path are among the statement's, and their labels differ as those do
  have hmem : ∀ j ∈ (b.trace target).1, j ∈ s.joins := fun j hj => by
    have htraced : j ∈ (s.trace target).1 := by
      rwa [← hbase, Scope.trace_base] at hj
    exact (hparts.grows.laid hclosed.scope.laid).mem_joins_of_key htraced (hplain j hj) (hkeys j hj)
  have hjoins : ∀ j ∈ (b.trace target).1, j.join ∈ data.statement.joins := fun j hj => by
    rw [hparts.joins]
    exact List.mem_map_of_mem (hmem j hj)
  have hpathNodup : (b.label :: (b.trace target).1.map fun j => j.join.label).Nodup := by
    have hslabel : s.label = b.label := hparts.grows.label.trans (hlabel.trans hblabel.symm)
    have hlabels := hnodup
    rw [hparts.joins, ← hblabel, ← hslabel] at hlabels
    rw [← hslabel]
    exact Scope.nodup_of_subset hlabels hdistinct hmem
  have hkeyed : ∀ j ∈ (b.trace target).1, j.join.toMany = false → db.Keyed d j.join.table j.join.column :=
      fun j hj hone => by
    obtain ⟨e, he, htable, hcolumn⟩ := ((Scope.trace_made b _).1 j hj).toOne hone
    rw [hbcatalog] at he
    rw [htable, hcolumn]
    exact hdb e (List.mem_cons_of_mem root he)
  have hlabels := hparts.label.trans hblabel.symm
  rw [← hparts.label] at hnodup hof
  rw [← htable] at hrow
  have hcells := hfree.mem_cells hbody hidentity hnodup hlabels.symm hshows hpathNodup hjoins
    (by rw [hlabels]; exact Scope.trace_inOrder b _) hkeyed hg (hparts.of_mem_groups hclosed hunder hg).1 hrow hof y
  rwa [hbcatalog, hbroot] at hcells

end

/-! ## The whole collection -/

/-- **A collection's sort key is of all that it holds, as long as what rows are selected and grouped by leaves the
collection's path alone.**  The whole entity, not a single row, sorted among others by a collection: each result row is
of one root row, and its key is the least, or downwards the greatest, of all that the collection holds for that root
row, if neither the conditions nor the grouping read a column behind a to-many join of the path. -/
theorem sort_key_of_collection {catalog : Catalog} {root : Entity} {caps : Capabilities} {r : Request}
    {wantCount : Bool} {recipe : Option Recipe} {requireProjection : Bool} {plan : PagePlan}
    (h : (PagePlan.build catalog root caps r wantCount recipe requireProjection).2 = .ok plan)
    (hwhole : ∀ x ∈ recipe, x.whole = true) (hlimit : r.limit ≠ some 1) {i : Nat} {o : Ordering}
    (ho : r.ordering[i]? = some o) (hunmarked : hasChar '@' o.path = false)
    (hcollection : (catalog.tableAlong? root (splitText '.' o.path)).isSome = true)
    (hnodup : (dataLabel :: plan.data.statement.joins.map Join.label).Nodup)
    (hdb : ∀ e ∈ root :: catalog.entities, db.Identifies d e) {far : List String}
    (hfree : plan.data.statement.LeavesAlone ((Scope.new catalog root dataLabel).trace (sharedPath o.path)).1 far) :
    ∃ k, plan.data.statement.orderBy[i]? = some k ∧ k.ascending = o.ascending ∧
      ∀ out ∈ plan.data.statement.rows d db, ∃ row ∈ db.rows root.table,
        out.members ≠ [] ∧ (∀ w ∈ out.members, w.lookup dataLabel = some row) ∧
          d.key (k.expr.eval d db out.members) = d.key (d.aggregate (if o.ascending then .min else .max)
            (db.held d catalog root (splitText '.' o.path) row)) := by
  obtain ⟨p, hprepare, hdata, -⟩ := build_ok h
  obtain ⟨s, orders, hparts⟩ := dataPlan_ok hdata
  have hclosed := closed_prepare hprepare
  have hunder := under_prepare hprepare
  obtain ⟨v, hv⟩ := Option.isSome_iff_exists.1 hcollection
  obtain ⟨x, l, hx, hkey⟩ := hparts.ofCollection hunder ho (prepare_whole hwhole hprepare).2 hlimit hunmarked hv
  have hterm : x.term.isAggregate = true ∧ x.ascending = o.ascending ∧
      x.term.expr = .call (if o.ascending then .min else .max) (Expr.col l v.value) := by
    rw [hkey.term]
    exact ⟨rfl, rfl, rfl⟩
  obtain ⟨hagg, hascending, hexpr⟩ := hterm
  obtain ⟨hgrouped, hmerged⟩ := hparts.grouped_of_aggregate (List.mem_of_getElem? hx) hagg
  refine ⟨⟨x.term.expr, x.ascending⟩, ?_, hascending, fun out hout => ?_⟩
  · rw [hparts.orderBy, List.getElem?_map, hx]
    rfl
  -- nothing being merged, a result row is of one group
  unfold Statement.rows at hout
  rw [hmerged] at hout
  obtain ⟨g, hg, rfl⟩ := List.mem_map.1 hout
  obtain ⟨row, hrow, hof⟩ := hparts.row_of_mem_groups hclosed hunder (hdb root List.mem_cons_self) hg
  refine ⟨row, hrow, (hparts.of_mem_groups hclosed hunder hg).1, hof, ?_⟩
  have hfunction : (if o.ascending then Function.min else .max) = .min ∨
      (if o.ascending then Function.min else .max) = .max := by
    split <;> simp
  have heval : x.term.expr.eval d db g = d.aggregate (if o.ascending then .min else .max)
      (g.map fun w => (Expr.col l v.value).eval d db [w]) := by
    have hsteady : (if o.ascending then Function.min else .max).isAggregate = true := by
      split <;> rfl
    rw [hexpr, Expr.eval, hsteady, if_pos rfl]
  rw [heval]
  exact Dialect.key_aggregate_of_mem hfunction fun y =>
    hparts.mem_cells hunder hclosed hgrouped hnodup hdb hfree hkey hg hrow hof y

/-! ## Orders and persons with a pen -/

namespace Sample

def packed : Store where
  rows
    | "orders" => [row [("id", .int64 10), ("amount", .int64 5)]]
    | "order_items" =>
      [row [("order_id", .int64 10), ("item", .text "pen")], row [("order_id", .int64 10), ("item", .text "ink")]]
    | _ => []

def pensBy (path : String) : Request :=
  { Request.all with ordering := [⟨path, true⟩], required := [⟨path, .alternatives [.value (.text "pen")]⟩] }

end Sample

open Sample in
/-- A pen is looked for on a join of its own: the order sorts by its ink. -/
theorem pens_by_items :
    (∀ x ∈ some Recipe.wholeEntity, x.whole = true) ∧ (pensBy "items").limit ≠ some 1 ∧
    hasChar '@' "items" = false ∧ (catalog.tableAlong? order (splitText '.' "items")).isSome = true ∧
    (∀ e ∈ order :: catalog.entities, packed.Identifies .plain e) ∧
    ∃ plan, (PagePlan.build catalog order Backend.postgres.capabilities (pensBy "items") false
        (some .wholeEntity) false).2 = .ok plan ∧
      ((dataLabel :: plan.data.statement.joins.map Join.label).Nodup ∧
        plan.data.statement.LeavesAlone ((Scope.new catalog order dataLabel).trace (sharedPath "items")).1 ["e_items"] ∧
        plan.data.statement.orderBy.map (fun k =>
          (plan.data.statement.rows .plain packed).map fun out => k.expr.eval .plain packed out.members) =
            [[some (.text "ink")]]) ∧
      ∃ k, plan.data.statement.orderBy[0]? = some k ∧ k.ascending = true ∧
        ∀ out ∈ plan.data.statement.rows .plain packed, ∃ row ∈ packed.rows order.table,
          out.members ≠ [] ∧ (∀ w ∈ out.members, w.lookup dataLabel = some row) ∧
            Dialect.plain.key (k.expr.eval .plain packed out.members) = Dialect.plain.key
              (Dialect.plain.aggregate .min (packed.held .plain catalog order (splitText '.' "items") row)) := by
  have hwhole : ∀ x ∈ some Recipe.wholeEntity, x.whole = true := fun x hx => by
    cases hx
    rfl
  have hlimit : (pensBy "items").limit ≠ some 1 := by decide
  have hunmarked : hasChar '@' "items" = false := by decide +kernel
  have hcollection : (catalog.tableAlong? order (splitText '.' "items")).isSome = true := by decide +kernel
  have hdb : ∀ e ∈ order :: catalog.entities, packed.Identifies .plain e := by decide +kernel
  obtain ⟨plan, hplan, hjoined⟩ := exists_ok
    (P := fun plan : PagePlan => (dataLabel :: plan.data.statement.joins.map Join.label).Nodup ∧
      plan.data.statement.LeavesAlone ((Scope.new catalog order dataLabel).trace (sharedPath "items")).1 ["e_items"] ∧
        plan.data.statement.orderBy.map (fun k =>
          (plan.data.statement.rows .plain packed).map fun out => k.expr.eval .plain packed out.members) =
            [[some (.text "ink")]])
    (x := (PagePlan.build catalog order Backend.postgres.capabilities (pensBy "items") false (some .wholeEntity)
      false).2) (by decide +kernel)
  obtain ⟨hnodup, hfree, hink⟩ := hjoined
  obtain ⟨k, hk, hascending, hrows⟩ := sort_key_of_collection (i := 0) (o := ⟨"items", true⟩) hplan hwhole hlimit rfl
    hunmarked hcollection hnodup hdb hfree
  exact ⟨hwhole, hlimit, hunmarked, hcollection, hdb, plan, hplan, ⟨hnodup, hfree, hink⟩, k, hk, hascending, hrows⟩

open Sample in
/-- A pen among a person's orders is looked for on the join of the orders, which the sort key is reached through too:
Ada sorts by the pen of the order that has it, though the least of all that she ordered is ink. -/
theorem pens_by_ordered_items :
    (∀ e ∈ person :: catalog.entities, store.Identifies .plain e) ∧ (pensBy "orders.items").limit ≠ some 1 ∧
    hasChar '@' "orders.items" = false ∧
    (catalog.tableAlong? person (splitText '.' "orders.items")).isSome = true ∧
    ∃ plan, (PagePlan.build catalog person Backend.postgres.capabilities (pensBy "orders.items") false none false).2 =
        .ok plan ∧
      (dataLabel :: plan.data.statement.joins.map Join.label).Nodup ∧
      ∃ k ∈ plan.data.statement.orderBy, k.ascending = true ∧
        ∃ out ∈ plan.data.statement.rows .plain store, ∃ row ∈ store.rows "persons",
          (out.members.map fun w => w.cell ⟨dataLabel, "id"⟩) = [row "id"] ∧
            k.expr.eval .plain store out.members = some (.text "pen") ∧
            Dialect.plain.aggregate .min (store.held .plain catalog person (splitText '.' "orders.items") row) =
              some (.text "ink") ∧
            Dialect.plain.key (some (.text "pen")) ≠ Dialect.plain.key (some (.text "ink")) :=
  ⟨by decide +kernel, by decide, by decide +kernel, by decide +kernel, exists_ok (by decide +kernel)⟩

end PageQuery
