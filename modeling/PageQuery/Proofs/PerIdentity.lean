import PageQuery.Proofs.Held
import PageQuery.Proofs.JoinLabels
/-!
# Sums and averages are of one root row

A sum or an average of a path is read in a subquery about the root row, over the joins of that path and no others.  So
its value is a fact of the root row: of the cells that the names of the path show over their left joins.  Whatever else
a query joins, restricts, groups or merges, and whatever labels it does that under, each row put out has the value of
the root row that it is drawn of.
-/
namespace PageQuery

variable {d : Dialect} {db : Store}

/-! ## What names show of a row -/

def orNull (rs : List Row) : List Row := if rs.isEmpty then [nullRow] else rs

def Store.leftRelated (d : Dialect) (db : Store) (c : Catalog) (e : Entity) (a : Attribute) (r : Row) :
    List (Entity × Row) :=
  if (db.related d c e a r).isEmpty then ((Catalog.targetOf a.storage).bind c.entity?).toList.map (·, nullRow)
  else db.related d c e a r

/-- The cells that an attribute shows of a row: the one kept in the row, or those that a left join leads to. -/
def Store.cellsAt (d : Dialect) (db : Store) (c : Catalog) (e : Entity) (a : Attribute) (r : Row) : List Cell :=
  match a.ownColumn? with
  | some column => [r column]
  | none => (c.valueTable? a).toList.flatMap fun v =>
      (orNull (db.matching d v.table v.owner (r e.identityColumn))).map fun t => t v.value

/-- The cells that names show of a row over their left joins, one relation after the other. -/
def Store.cellsAlong (d : Dialect) (db : Store) (c : Catalog) : Entity → List String → Row → List Cell
  | _, [], _ => []
  | e, name :: rest, r =>
    match e.lookup? name with
    | none => []
    | some a =>
      if rest.isEmpty then db.cellsAt d c e a r
      else (db.leftRelated d c e a r).flatMap fun x => db.cellsAlong d c x.1 rest x.2

def pathNames (path : String) : List String :=
  match FieldPath.parse path with
  | .error _ => []
  | .ok segments =>
    match parseMarker path segments.last with
    | .error _ => []
    | .ok (name, _) => segments.parents ++ [name]

theorem pathNames_eq {path name : String} {segments : FieldPath} {marker : Marker}
    (hparse : FieldPath.parse path = .ok segments) (hmarker : parseMarker path segments.last = .ok (name, marker)) :
    pathNames path = segments.parents ++ [name] := by
  unfold pathNames
  simp only [hparse, hmarker]

theorem pathNames_sharedPath {path : String} (hunmarked : hasChar '@' path = false) (hne : pathNames path ≠ []) :
    pathNames (sharedPath path) = pathNames path := by
  cases hparse : FieldPath.parse path with
  | error e =>
    refine absurd ?_ hne
    unfold pathNames
    simp only [hparse]
  | ok segments =>
    cases hmarker : parseMarker path segments.last with
    | error e =>
      refine absurd ?_ hne
      unfold pathNames
      simp only [hparse, hmarker]
    | ok nm =>
      obtain ⟨name, marker⟩ := nm
      have hlast := notMem_last_of_unmarked hparse hunmarked
      have hshared : FieldPath.parse (sharedPath path) = .ok ⟨segments.parents, "@" ++ segments.last ++ ""⟩ :=
        parse_marked (by decide) hparse
      rw [pathNames_eq hparse hmarker, pathNames_eq hshared (parseMarker_shared _ hmarker hlast)]

/-! ## Left joins along a path -/

theorem Tuple.extend_eq (w : Tuple) (j : Join) :
    w.extend d db j = (orNull (db.matching d j.table j.column (w.rowOf j.owner.source j.owner.name))).map fun r =>
      w ++ [(j.label, r)] := by
  have hmatching : ((db.rows j.table).filter fun r => d.equal (r j.column) (w.cell j.owner)) =
      db.matching d j.table j.column (w.rowOf j.owner.source j.owner.name) := by
    rw [cell_eq]
    rfl
  unfold extend orNull
  rw [hmatching]
  cases db.matching d j.table j.column (w.rowOf j.owner.source j.owner.name) <;> rfl

/-- The function that a measure reads in a subquery about the root row, if it does. -/
def Measure.perRow? : Measure → Option Function
  | .sum => some .sum
  | .avg => some .avg
  | .path | .count | .min | .max => none

namespace Scope
variable {s : Scope}

theorem step_leftRelated {path : String} {p q : Position} {segment : String} {j : KeyedJoin}
    (h : s.step path p segment = .ok (j, q)) : q.label = j.join.label ∧ j.join.owner.source = p.label ∧
      ∃ a, p.entity.lookup? segment = some a ∧ ∀ (d : Dialect) (db : Store) (r : Row),
        db.leftRelated d s.catalog p.entity a r =
          (orNull (db.matching d j.join.table j.join.column (r j.join.owner.name))).map (q.entity, ·) := by
  obtain ⟨hlabel, howner, a, ha, htarget, hrelated⟩ := step_related h
  refine ⟨hlabel, howner, a, ha, fun d db r => ?_⟩
  unfold Store.leftRelated orNull
  rw [htarget, hrelated, List.isEmpty_map]
  split <;> rfl

theorem cellsAlong_cons {p : Position} {segment : String} {a : Attribute} (ha : p.entity.lookup? segment = some a)
    {names : List String} (hnames : names ≠ []) (r : Row) :
    db.cellsAlong d s.catalog p.entity (segment :: names) r =
      (db.leftRelated d s.catalog p.entity a r).flatMap fun x => db.cellsAlong d s.catalog x.1 names x.2 := by
  rw [Store.cellsAlong, ha]
  simp [hnames]

theorem walk_cellsAlong (d : Dialect) (db : Store) (path name : String) :
    ∀ {segments : List String} {p q : Position} {w : Tuple},
    (s.walk path p segments).2 = .ok q → p.label ∈ w.map Prod.fst →
    (w.map Prod.fst ++ (s.walk path p segments).1.map fun j => j.join.label).Nodup →
    db.cellsAlong d s.catalog p.entity (segments ++ [name]) (w.rowOf p.label) =
      (Tuple.joined d db ((s.walk path p segments).1.map KeyedJoin.join) w).flatMap fun v =>
        db.cellsAlong d s.catalog q.entity [name] (v.rowOf q.label)
  | [], p, q, w, h, _, _ => by
    cases h
    simp [walk, Tuple.joined]
  | segment :: rest, p, q, w, h, hp, hnodup => by
    obtain ⟨j, p', hstep, hend, hjoins⟩ := walk_cons_ok h
    obtain ⟨hlabel, howner, a, ha, hrelated⟩ := step_leftRelated hstep
    rw [hjoins, List.map_cons] at hnodup
    have hnew : j.join.label ∉ w.map Prod.fst := fun hmem =>
      (List.nodup_append.1 hnodup).2.2 _ hmem _ List.mem_cons_self rfl
    have hrest : ∀ r : Row, db.cellsAlong d s.catalog p'.entity (rest ++ [name]) r =
        (Tuple.joined d db ((s.walk path p' rest).1.map KeyedJoin.join) (w ++ [(j.join.label, r)])).flatMap fun v =>
          db.cellsAlong d s.catalog q.entity [name] (v.rowOf q.label) := by
      intro r
      have hlabels : (w ++ [(j.join.label, r)]).map Prod.fst = w.map Prod.fst ++ [j.join.label] := List.map_append
      have hthere := walk_cellsAlong d db path name hend (w := w ++ [(j.join.label, r)])
        (by
          rw [hlabels, hlabel]
          exact List.mem_append_right _ List.mem_cons_self)
        (by
          rw [hlabels, List.append_assoc]
          exact hnodup)
      rwa [hlabel, Tuple.rowOf_concat hnew] at hthere
    have hne : rest ++ [name] ≠ [] := by simp
    rw [List.cons_append, cellsAlong_cons ha hne, hrelated, hjoins, List.map_cons, Tuple.joined, Tuple.extend_eq,
      howner, List.flatMap_map, List.flatMap_assoc, List.flatMap_map]
    exact List.flatMap_congr fun r _ => hrest r

theorem cellsAlong_singleton {e : Entity} {name : String} {a : Attribute} (ha : e.lookup name = .ok a) (r : Row) :
    db.cellsAlong d s.catalog e [name] r = db.cellsAt d s.catalog e a r := by
  rw [Store.cellsAlong, Entity.lookup?_of_lookup ha]
  rfl

/-- **Over the joins of a path its term reads what the names of the path show.** -/
theorem trace_cellsAlong (d : Dialect) (db : Store) {path : String} {t : Term} (h : (s.trace path).2 = .ok t)
    (hnodup : (s.label :: (s.trace path).1.map fun j => j.join.label).Nodup) (row : Row) :
    (Tuple.joined d db ((s.trace path).1.map KeyedJoin.join) [(s.label, row)]).map (fun w => t.expr.eval d db [w]) =
      db.cellsAlong d s.catalog s.root (pathNames path) row := by
  obtain ⟨segments, q, j, hparse, hwalk, hleaf, hjoins⟩ := trace_ok h
  obtain ⟨name, marker, a, hmarker, ha, hcases⟩ := leaf_cases hleaf
  rw [pathNames_eq hparse hmarker]
  rw [hjoins] at hnodup ⊢
  rw [List.map_append, ← List.cons_append] at hnodup
  obtain ⟨hwalked, -, hapart⟩ := List.nodup_append.1 hnodup
  have hstart : Tuple.rowOf [(s.label, row)] s.start.label = row := by simp [Tuple.rowOf, start]
  have hcells := walk_cellsAlong d db (w := [(s.label, row)]) path name hwalk List.mem_cons_self hwalked
  rw [hstart] at hcells
  rw [show s.root = s.start.entity from rfl, hcells, List.map_append, Selection.joined_append, List.map_flatMap]
  refine List.flatMap_congr fun v hv => ?_
  rw [cellsAlong_singleton ha, Store.cellsAt]
  rcases hcases with ⟨-, rfl, c, type, hc, rfl⟩ | ⟨hmany, vt, key, hvt, -, rfl, rfl⟩
  · simp only [hc, Option.toList_none, List.map_nil, Tuple.joined, List.map_singleton, Expr.col, Expr.eval,
      List.headD_cons, Tuple.cell_eq]
  · -- the join of the collection adds its rows under a label that is not there yet
    have hnone : a.ownColumn? = none := by
      obtain ⟨called, type, storage⟩ := a
      cases storage <;> first | rfl | cases hmany
    obtain ⟨u, rfl, hu⟩ := Tuple.mem_joined d db hv
    have hnew : joinLabel s.label key ∉ ([(s.label, row)] ++ u).map Prod.fst := by
      intro hmem
      rw [List.map_append, hu, List.map_map] at hmem
      exact hapart _ hmem _ List.mem_cons_self rfl
    have hone : ∀ k : Join,
        Tuple.joined d db [k] ([(s.label, row)] ++ u) = Tuple.extend d db ([(s.label, row)] ++ u) k :=
      fun k => by simp [Tuple.joined]
    simp only [hnone, hvt, Option.toList_some, List.flatMap_singleton, List.map_singleton, hone, Tuple.extend_eq,
      joinAt, List.map_map]
    refine List.map_congr_left fun r _ => ?_
    simp only [Function.comp_apply, Expr.col, Expr.eval, List.headD_cons, Tuple.cell_eq, Tuple.rowOf_concat hnew]

theorem readTarget_fresh {catalog : Catalog} {root : Entity} {label path : String} {t : Term}
    (h : ((new catalog root label).readTarget path).2 = .ok t) :
    ∃ target, pathNames target = pathNames path ∧ ((new catalog root label).trace target).2 = .ok t ∧
      (new catalog root label).readTarget path =
        ((new catalog root label).addJoins ((new catalog root label).trace target).1, .ok t) := by
  obtain ⟨a, hterminal, hresolved, htrace⟩ := resolveMarked_ok (s := new catalog root label) rfl h
  obtain ⟨segments, p, name, marker, hparse, -, hmarker, -⟩ := terminal_ok hterminal
  have hne : pathNames path ≠ [] := by
    rw [pathNames_eq hparse hmarker]
    simp
  refine ⟨_, ?_, htrace, hresolved⟩
  split
  · next hmarks =>
    rw [Bool.and_eq_true, Bool.not_eq_true'] at hmarks
    exact pathNames_sharedPath hmarks.2 hne
  · rfl

/-! ## Subqueries about a root row -/

/-- Of the joined rows of a subquery, the link to a row around it leaves those that spring from that row. -/
theorem linked_eq (hdb : db.Identifies d s.root) {row : Row} (hrow : row ∈ db.rows s.root.table) {l : String}
    (hl : ¬s.labels l) {outer : Tuple} (houter : outer.lookup l = some row) :
    (db.tuples d s.root.table s.label s.joinList).filter (fun w =>
      holdsAll d db [Expr.eq s.identity.expr (Expr.col l s.root.identityColumn)] [w ++ outer]) =
        Tuple.joined d db s.joinList [(s.label, row)] := by
  let q : Selection := ⟨s.root, s.label, s.joinList, [], []⟩
  have hlink : ∀ w ∈ db.tuples d q.root.table q.label q.joins,
      holdsAll d db [Expr.eq s.identity.expr (Expr.col l s.root.identityColumn)] [w ++ outer] =
        decide (q.ident d w = d.key (row s.root.identityColumn)) := by
    intro w hw
    have hholds := Selection.holds_link (q := q) hw hl houter (hdb.filled row hrow)
    rw [holdsAll, List.all_cons, List.all_nil, Bool.and_true]
    exact hholds
  have hspan : ∀ r ∈ db.rows s.root.table, ∀ w ∈ q.span d db r, q.ident d w = d.key (r s.root.identityColumn) :=
    fun r _ w hw => Selection.ident_of_mem_span hw
  exact (List.filter_congr hlink).trans (filter_ident_flatMap hspan hdb.apart hrow)

/-- **A function read in a subquery about the root row** is that of the cells that the path's names show of the row,
whatever else is in sight. -/
theorem eval_perIdentity {f : Function} (hf : f.isAggregate = true) {type : Option ValueType} {path : String} {t : Term}
    (h : (s.perIdentity f type path).2 = .ok t) (hdb : db.Identifies d s.root) {row : Row}
    (hrow : row ∈ db.rows s.root.table) {w : Tuple} (hw : w.lookup s.label = some row) (g : List Tuple) :
    t.expr.eval d db (w :: g) = d.aggregate f (db.cellsAlong d s.catalog s.root (pathNames path) row) := by
  have hinner := grows_readTarget s.detached path
  have hwithin := s.closed_detached.readTarget path
  unfold perIdentity at h
  generalize hread : s.detached.readTarget path = found at hinner hwithin h
  obtain ⟨inner, e | u⟩ := found
  · cases h
  · cases h
    have hok : (s.detached.readTarget path).2 = .ok u := by rw [hread]
    obtain ⟨target, hnames, htrace, hfresh⟩ := readTarget_fresh hok
    have hscope : inner = s.detached.addJoins (s.detached.trace target).1 := by
      rw [show s.detached.readTarget path = _ from hfresh] at hread
      exact (congrArg Prod.fst hread).symm
    have hroot : inner.root = s.root := hinner.root
    have hjoins : inner.joinList = (s.detached.trace target).1.map KeyedJoin.join := by
      rw [hscope]
      exact congrArg (List.map KeyedJoin.join) (joins_addJoins (s := s.detached) (trace_keys htrace))
    have hnodup : (s.detached.label :: (s.detached.trace target).1.map fun j => j.join.label).Nodup := by
      have hlabels := nodup_of_trace htrace
      rw [← show s.detached = new _ _ _ from rfl, ← hscope, hjoins, List.map_map] at hlabels
      exact hlabels
    rw [← hroot] at hdb hrow
    have hlinked := linked_eq hdb hrow (hidden_detached hinner) hw
    have hidentity : s.identity.expr = Expr.col s.label inner.root.identityColumn := by
      rw [hroot]
      rfl
    have hitem : (Expr.call f u.expr).isAggregate = true := by simp [Expr.isAggregate, hf]
    -- all rows of the subquery that are linked to this row are its one group
    have hgroup : (inner.correlated (.call f u.expr) s.identity.expr [] [] []).eval d db w =
        [(Expr.call f u.expr).eval d db ((Tuple.joined d db inner.joinList [(inner.label, row)]).map (· ++ w))] := by
      rw [correlated, hidentity, Subquery.eval_select, pick, hlinked, hitem]
      rfl
    have hcells : ∀ v ∈ Tuple.joined d db inner.joinList [(inner.label, row)],
        u.expr.eval d db [v ++ w] = u.expr.eval d db [v] := fun v hv => by
      have hsteady : u.expr.Steady d db inner.labels := (hwithin u rfl).expr.steady fun _ hq => False.elim hq
      have hmem : v ∈ db.tuples d inner.root.table inner.label inner.joinList := List.mem_flatMap.2 ⟨row, hrow, hv⟩
      exact (hsteady.sees.one (Tuple.alike_append (shows_of_mem_tuples hmem) w)).symm
    have hshown := trace_cellsAlong (s := s.detached) d db htrace hnodup row
    rw [← hjoins, hnames, ← hinner.label] at hshown
    simp only [Expr.eval, List.headD_cons, hgroup, List.head?_cons, Option.join_some, hf, if_true, List.map_map]
    exact congrArg (d.aggregate f) ((List.map_congr_left hcells).trans hshown)

theorem addJoins_opened (js : List KeyedJoin) : s.opened.addJoins js = (s.addJoins js).opened := by
  have hjoins : (s.opened.addJoins js).joins = (s.addJoins js).joins :=
    joins_addJoins_congr (s := s.opened) (t := s) rfl js
  rw [addJoins_eq s.opened, hjoins, addJoins_eq s]
  rfl

theorem resolve_opened (path : String) : s.opened.resolve path = ((s.resolve path).1.opened, (s.resolve path).2) := by
  have hfield : s.opened.field? path = s.field? path := rfl
  unfold resolve
  rw [hfield]
  cases s.field? path with
  | some t => rfl
  | none => simp only [(grows_opened s).trace path, addJoins_opened]

theorem resolveMarked_opened (mark : String → String) (path : String) :
    s.opened.resolveMarked mark path = ((s.resolveMarked mark path).1.opened, (s.resolveMarked mark path).2) := by
  have hfield : s.opened.field? path = s.field? path := rfl
  have hterminal : s.opened.terminal path = s.terminal path := by
    rw [← terminal_base s.opened, (grows_opened s).base, terminal_base]
  unfold resolveMarked
  rw [hfield, hterminal]
  cases s.field? path with
  | some t => rfl
  | none =>
    cases s.terminal path with
    | error e => rfl
    | ok a => exact resolve_opened _

end Scope

namespace Measure
variable {m : Measure} {f : Function} {s : Scope}

theorem perRow_measure (hm : m.perRow? = some f) (s : Scope) (path : String) :
    f.isAggregate = true ∧ ∃ type, s.measure m path = s.perIdentity f type path := by
  cases m with
  | sum | avg =>
    cases hm
    exact ⟨rfl, _, rfl⟩
  | path | count | min | max => cases hm

theorem scope_measure (hm : m.perRow? = some f) (s : Scope) (path : String) : (s.measure m path).1 = s.opened := by
  obtain ⟨-, type, hmeasure⟩ := perRow_measure hm s path
  rw [hmeasure]
  unfold Scope.perIdentity
  split <;> rfl

theorem exists_measure (hm : m.perRow? = some f) {path : String} {u : Term} (h : (s.base.readTarget path).2 = .ok u) :
    ∃ t, (s.measure m path).2 = .ok t := by
  obtain ⟨-, type, hmeasure⟩ := perRow_measure hm s path
  have hread : ∃ t, (s.detached.readTarget path).2 = .ok t := by
    rw [s.detached_eq, Scope.readTarget_relabel (s := s.base) (keepsBehind_rebase s.label _)]
    simp only [Scope.relabelFound, h, Except.map]
    exact ⟨_, rfl⟩
  obtain ⟨t, ht⟩ := hread
  rw [hmeasure]
  unfold Scope.perIdentity
  generalize s.detached.readTarget path = found at ht
  obtain ⟨inner, e | t'⟩ := found
  · cases ht
  · exact ⟨_, rfl⟩

end Measure

/-! ## Fields of a recipe -/

def Step.field? : Step → Option String
  | .measure _ field _ | .identity field | .constant field _ _ _ => field
  | .attempt _ _ | .condition _ => none

/-- The steps that no later step takes the field's name from. -/
def lasting : List Step → List Step
  | [] => []
  | x :: xs => if xs.any fun y => y.field? == x.field? then lasting xs else x :: lasting xs

def Step.Makes (s s' : Scope) (t : Term) : Step → Prop
  | .measure m _ path | .attempt m path => s.measure m path = (s', .ok t)
  | .identity _ => s' = s ∧ t = s.identity
  | .constant _ v type origin => s' = s ∧ t = ⟨.value v, type, origin⟩
  | .condition _ => False

theorem Step.Makes.grows {x : Step} {s s' : Scope} {t : Term} (h : x.Makes s s' t) : s.Grows s' := by
  cases x with
  | measure m _ path | attempt m path =>
    have hgrows := Scope.grows_measure s m path
    rwa [show s.measure m path = _ from h] at hgrows
  | identity field | constant field v type origin => exact h.1 ▸ .refl s
  | condition f => exact False.elim h

namespace Projection

theorem mem_put_self (p : Projection) (name : String) (t : Term) : (name, t) ∈ p.put name t := by
  unfold put
  split
  · next hany =>
    obtain ⟨x, hx, hname⟩ := List.any_eq_true.1 hany
    exact List.mem_map.2 ⟨x, hx, if_pos (beq_iff_eq.1 hname)⟩
  · exact List.mem_append_right p List.mem_cons_self

theorem mem_put_of_ne {p : Projection} {x : String × Term} (hx : x ∈ p) {name : String} (hne : name ≠ x.1) (t : Term) :
    x ∈ p.put name t := by
  unfold put
  split
  · exact List.mem_map.2 ⟨x, hx, if_neg fun heq => hne heq.symm⟩
  · exact List.mem_append_left _ hx

theorem of_mem_put {p : Projection} {name : String} {t : Term} {x : String × Term} (h : x ∈ p.put name t) :
    x = (name, t) ∨ x ∈ p ∧ x.1 ≠ name := by
  unfold put at h
  split at h
  · obtain ⟨y, hy, rfl⟩ := List.mem_map.1 h
    by_cases hname : y.1 = name
    · exact .inl (if_pos hname)
    · rw [if_neg hname]
      exact .inr ⟨hy, hname⟩
  · next hnone =>
    rcases List.mem_append.1 h with h | h
    · exact .inr ⟨h, fun hname => hnone (List.any_eq_true.2 ⟨x, h, beq_iff_eq.2 hname⟩)⟩
    · exact .inl (List.mem_singleton.1 h)

end Projection

namespace RunState
variable {st st' : RunState}

theorem steps_append_ok {post : List Step} : ∀ {pre : List Step} {st st' : RunState},
    st.steps (pre ++ post) = (st', none) → ∃ st₁, st.steps pre = (st₁, none) ∧ st₁.steps post = (st', none)
  | [], st, _, h => ⟨st, rfl, h⟩
  | x :: pre, st, st', h => by
    simp only [List.cons_append, steps] at h ⊢
    rcases hx : st.step x with ⟨st₁, _ | e⟩
    · rw [hx] at h
      exact steps_append_ok h
    · rw [hx] at h
      cases h

theorem fields_step {x : Step} (h : st.step x = (st', none)) :
    x.field? = none ∧ st'.fields = st.fields ∨
      ∃ name t, x.field? = some name ∧ st'.fields = st.fields.put name t ∧ x.Makes st.scope st'.scope t := by
  have hterm : ∀ {s : Scope} {t : Term} (field : Option String), x.Makes st.scope s t →
      field = none ∧ (st.withTerm s field t).fields = st.fields ∨
        ∃ name u, field = some name ∧ (st.withTerm s field t).fields = st.fields.put name u ∧
          x.Makes st.scope s u := by
    intro s t field hmakes
    cases field with
    | none => exact .inl ⟨rfl, rfl⟩
    | some name => exact .inr ⟨name, t, rfl, rfl, hmakes⟩
  rcases step_cases h with ⟨m, field, path, s, t, rfl, hmeasure, rfl⟩ | ⟨field, rfl, rfl⟩ |
    ⟨field, v, type, origin, rfl, rfl⟩ | ⟨m, path, rfl, rfl⟩ | ⟨f, rfl, rfl⟩
  · exact hterm field hmeasure
  · exact hterm field ⟨rfl, rfl⟩
  · exact hterm field ⟨rfl, rfl⟩
  · rcases st.read_cases m none path with ⟨s, t, -, hread⟩ | ⟨s, e, -, hread⟩
    all_goals exact .inl ⟨rfl, congrArg (fun y => y.1.fields) hread⟩
  · exact .inl ⟨rfl, rfl⟩

theorem mem_fields_step {x : Step} (h : st.step x = (st', none)) {y : String × Term} (hy : y ∈ st.fields)
    (hne : x.field? ≠ some y.1) : y ∈ st'.fields := by
  rcases fields_step h with ⟨-, hfields⟩ | ⟨name, t, hname, hfields, -⟩
  · rwa [hfields]
  · rw [hfields]
    exact Projection.mem_put_of_ne hy (fun heq => hne (hname.trans (congrArg some heq))) t

theorem mem_fields_steps {y : String × Term} : ∀ {xs : List Step} {st : RunState}, st.steps xs = (st', none) →
    y ∈ st.fields → (∀ x ∈ xs, x.field? ≠ some y.1) → y ∈ st'.fields
  | [], _, h, hy, _ => by
    cases h
    exact hy
  | x :: xs, st, h, hy, hne => by
    simp only [steps] at h
    rcases hx : st.step x with ⟨st₁, _ | e⟩
    · rw [hx] at h
      exact mem_fields_steps h (mem_fields_step hx hy (hne x List.mem_cons_self)) fun z hz =>
        hne z (List.mem_cons_of_mem x hz)
    · rw [hx] at h
      cases h

/-- **What a run puts out**: of each name the term of the last step that gave it, in the scope that it stood in. -/
theorem exists_step_of_mem_fields : ∀ {xs : List Step} {st st' : RunState}, st.steps xs = (st', none) →
    ∀ y ∈ st'.fields, (y ∈ st.fields ∧ ∀ x ∈ xs, x.field? ≠ some y.1) ∨
      ∃ x ∈ lasting xs, x.field? = some y.1 ∧ ∃ s s', st.scope.Grows s ∧ x.Makes s s' y.2 ∧ s'.Grows st'.scope
  | [], _, _, h, y, hy => by
    cases h
    exact .inl ⟨hy, fun x hx => (List.not_mem_nil hx).elim⟩
  | x :: xs, st, st', h, y, hy => by
    have hstep := grows_step st x
    simp only [steps] at h
    rcases hx : st.step x with ⟨st₁, _ | e⟩
    · rw [hx] at h hstep
      have hrest : st₁.steps xs = (st', none) := h
      have hlater := grows_steps st₁ xs
      rw [hrest] at hlater
      rcases exists_step_of_mem_fields hrest y hy with ⟨hy, hnone⟩ | ⟨z, hz, hname, s, s', hs, hmakes, hs'⟩
      · rcases fields_step hx with ⟨hnamed, hfields⟩ | ⟨name, t, hnamed, hfields, hmakes⟩
        · rw [hfields] at hy
          refine .inl ⟨hy, List.forall_mem_cons.2 ⟨fun heq => ?_, hnone⟩⟩
          rw [hnamed] at heq
          cases heq
        · rw [hfields] at hy
          rcases Projection.of_mem_put hy with rfl | ⟨hy, hne⟩
          · refine .inr ⟨x, ?_, hnamed, st.scope, st₁.scope, .refl _, hmakes, hlater⟩
            have hlast : ¬xs.any (fun z => z.field? == x.field?) = true := fun hany => by
              obtain ⟨z, hz, heq⟩ := List.any_eq_true.1 hany
              exact hnone z hz ((beq_iff_eq.1 heq).trans hnamed)
            rw [lasting, if_neg hlast]
            exact List.mem_cons_self
          · refine .inl ⟨hy, List.forall_mem_cons.2 ⟨fun heq => ?_, hnone⟩⟩
            rw [hnamed] at heq
            exact hne (Option.some.inj heq).symm
      · refine .inr ⟨z, ?_, hname, s, s', hstep.trans hs, hmakes, hs'⟩
        rw [lasting]
        split
        · exact hz
        · exact List.mem_cons_of_mem x hz
    · rw [hx] at h
      cases h

/-- A run puts out the term of a measure under the name that it gave, unless a later step names that again. -/
theorem exists_field_of_run {s : Scope} {pre post : List Step} {m : Measure} {name path : String} {whole : Bool}
    (h : run s ⟨pre ++ .measure m (some name) path :: post, whole⟩ = (st, none))
    (hlast : ∀ x ∈ post, x.field? ≠ some name) :
    ∃ s' t, s.Grows s' ∧ (s'.measure m path).2 = .ok t ∧ (name, t) ∈ st.fields := by
  obtain ⟨st₁, hpre, hrest⟩ := steps_append_ok h
  have hgrows := grows_run s ⟨pre, whole⟩
  rw [show run s ⟨pre, whole⟩ = (st₁, none) from hpre] at hgrows
  simp only [steps] at hrest
  rcases hx : st₁.step (.measure m (some name) path) with ⟨st₂, _ | e⟩
  · rw [hx] at hrest
    rcases step_cases hx with ⟨m', field, path', s', t, heq, hmeasure, rfl⟩ | ⟨field, heq, -⟩ |
      ⟨field, v, type, origin, heq, -⟩ | ⟨m', path', heq, -⟩ | ⟨f, heq, -⟩
    · cases heq
      refine ⟨st₁.scope, t, hgrows, by rw [hmeasure], mem_fields_steps hrest ?_ hlast⟩
      exact Projection.mem_put_self _ name t
    all_goals cases heq
  · rw [hx] at hrest
    cases hrest

end RunState

theorem prepare_field {catalog : Catalog} {root : Entity} {r : Request} {label : String} {p : Prepared}
    {pre post : List Step} {m : Measure} {name path : String}
    (h : (prepare catalog root r (some ⟨pre ++ .measure m (some name) path :: post, false⟩) label).2 = .ok p)
    (hlast : ∀ x ∈ post, x.field? ≠ some name) :
    ∃ s t fields, (Scope.new catalog root label).Grows s ∧ (s.measure m path).2 = .ok t ∧
      p.projection = some fields ∧ (name, t) ∈ fields := by
  rcases prepare_ok h with ⟨hnone, -⟩ | ⟨x, st, hx, hrun, hrestrict⟩
  · cases hnone
  · cases hx
    obtain ⟨s, t, hgrows, ht, hmem⟩ := RunState.exists_field_of_run hrun hlast
    obtain ⟨must, may, -, -, rfl⟩ := restrict_ok hrestrict
    refine ⟨s, t, st.fields, hgrows, ht, ?_, hmem⟩
    have hfields : st.fields.isEmpty = false := List.isEmpty_eq_false_iff.2 (List.ne_nil_of_mem hmem)
    simp [Recipe.projection?, hfields]

/-! ## Rows put out -/

namespace Statement
variable {q : Statement}

/-- **A row put out is a group**, or groups that put out alike. -/
theorem exists_group_of_mem_rows {o : ResultRow} (ho : o ∈ q.rows d db) {w : Tuple} (hw : w ∈ o.members) :
    ∃ g ∈ q.groups d db, w ∈ g ∧ d.keys o.cells = d.keys (q.items.map fun i => i.expr.eval d db g) ∧
      (q.distinct = false → o.cells = q.items.map fun i => i.expr.eval d db g) := by
  unfold rows at ho
  simp only at ho
  split at ho
  · next hdistinct =>
    obtain ⟨same, hsame, rfl⟩ := List.mem_map.1 ho
    obtain ⟨x, hx, hwx⟩ := List.mem_flatMap.1 hw
    obtain ⟨z, hz, rfl⟩ := mem_parts_keys.1 hsame
    obtain ⟨hxmem, hxz⟩ := List.mem_filter.1 hx
    obtain ⟨g, hg, rfl⟩ := List.mem_map.1 hxmem
    refine ⟨g, hg, hwx, ?_, fun hfalse => by rw [hdistinct] at hfalse; cases hfalse⟩
    -- the cells are those of the first of the rows merged, and all of these are alike
    obtain ⟨a, rest, hcons⟩ := List.exists_cons_of_ne_nil (List.ne_nil_of_mem hx)
    have haz := (List.mem_filter.1 (hcons ▸ List.mem_cons_self : a ∈ _)).2
    rw [hcons]
    exact (of_decide_eq_true haz).trans (of_decide_eq_true hxz).symm
  · obtain ⟨g, hg, rfl⟩ := List.mem_map.1 ho
    exact ⟨g, hg, hw, rfl, fun _ => rfl⟩

theorem members_ne_nil (hgroups : ∀ g ∈ q.groups d db, g ≠ []) {o : ResultRow} (ho : o ∈ q.rows d db) :
    o.members ≠ [] := by
  unfold rows at ho
  simp only at ho
  split at ho
  · obtain ⟨same, hsame, rfl⟩ := List.mem_map.1 ho
    obtain ⟨z, hz, rfl⟩ := mem_parts_keys.1 hsame
    obtain ⟨g, hg, rfl⟩ := List.mem_map.1 hz
    obtain ⟨w, hw⟩ := List.exists_mem_of_ne_nil g (hgroups g hg)
    have hself : (⟨q.items.map fun i => i.expr.eval d db g, g⟩ : ResultRow) ∈
        ((q.groups d db).map fun g => (⟨q.items.map fun i => i.expr.eval d db g, g⟩ : ResultRow)).filter fun y =>
          decide (d.keys y.cells = d.keys (q.items.map fun i => i.expr.eval d db g)) :=
      List.mem_filter.2 ⟨List.mem_map_of_mem hg, decide_eq_true rfl⟩
    exact List.ne_nil_of_mem (List.mem_flatMap.2 ⟨_, hself, hw⟩)
  · obtain ⟨g, hg, rfl⟩ := List.mem_map.1 ho
    exact hgroups g hg

end Statement

section
variable {r : Request} {p : Prepared} {data : Plan} {s : Scope} {orders : List OrderTerm}
  (hparts : DataParts r p data s orders) (hclosed : p.Closed) {catalog : Catalog} {root : Entity}
  (hunder : p.Under catalog root dataLabel)
include hparts hunder

theorem DataParts.identity_mem_groupBy (hgrouped : data.statement.groupBy ≠ []) :
    Expr.col p.selection.label p.selection.root.identityColumn ∈ data.statement.groupBy := by
  have hrestriction : p.restriction.groupBy = if p.restriction.having.isEmpty then [] else [s.identity.expr] := by
    rw [hparts.grows.identity, hunder.groupBy, ← hunder.root, ← hunder.label]
    rfl
  rw [hparts.groupBy] at hgrouped ⊢
  refine (mem_dataGrouping_iff hrestriction hgrouped).2 (.inl ?_)
  rw [hparts.grows.identity]
  rfl

include hclosed

theorem DataParts.of_mem_groups {g : List Tuple} (hg : g ∈ data.statement.groups d db) :
    g ≠ [] ∧ ∀ x ∈ g, ∀ y ∈ g, p.selection.ident d x = p.selection.ident d y := by
  have hbare : data.statement.groupBy.isEmpty = true → data.statement.aggregated = false := fun hbare =>
    (hparts.plain_of_bare hclosed (List.isEmpty_iff.1 hbare)).2
  refine ⟨ne_nil_of_mem_pick hbare hg, fun x hx y hy => ?_⟩
  refine eq_of_mem_pick hbare (fun hgrouped x _ y _ hxy => ?_) hg hx hy
  have hmem := hparts.identity_mem_groupBy hunder (List.isEmpty_eq_false_iff.1 hgrouped)
  have hid := eval_eq_of_groupKey_eq hxy hmem
  simp only [Expr.col, Expr.eval, List.headD_cons] at hid
  exact hid

/-- **The joined rows of one group are of one root row.** -/
theorem DataParts.row_of_mem_groups (hdb : db.Identifies d root) {g : List Tuple}
    (hg : g ∈ data.statement.groups d db) : ∃ row ∈ db.rows root.table, ∀ w ∈ g, w.lookup dataLabel = some row := by
  obtain ⟨hne, hsame⟩ := hparts.of_mem_groups hclosed hunder hg
  obtain ⟨more, hreads⟩ := hparts.reads hunder
  have hroot : (p.selection.join more).root = root := hunder.root
  have hlabel : (p.selection.join more).label = dataLabel := hunder.label
  rw [← hroot] at hdb
  have htuples : ∀ w ∈ g, w ∈ db.tuples d (p.selection.join more).root.table (p.selection.join more).label
      (p.selection.join more).joins := fun w hw => by
    have hmem := (List.mem_filter.1 (mem_of_mem_parts (mem_pick.1 hg).1 hw)).1
    rwa [hreads.table, hreads.label, hreads.joins] at hmem
  obtain ⟨v, hv⟩ := List.exists_mem_of_ne_nil g hne
  obtain ⟨row, hrow, hspan, -⟩ := Selection.exists_span_of_ident_eq hdb (htuples v hv) (htuples v hv) rfl
  refine ⟨row, by rwa [hroot] at hrow, fun w hw => ?_⟩
  obtain ⟨row', -, hvspan, hwspan⟩ :=
    Selection.exists_span_of_ident_eq hdb (htuples v hv) (htuples w hw) (hsame v hv w hw)
  have hrows := (Selection.lookup_of_mem_span hspan).symm.trans (Selection.lookup_of_mem_span hvspan)
  rw [← hlabel, Selection.lookup_of_mem_span hwspan, hrows]

end

/-! ## Sums and averages -/

/-- **A sum or an average is of one root row.**  Reading it joins nothing and changes nothing that other paths resolve
to; where its path can be read, its term has over every joined row of a root row, whatever else is in sight, the sum or
the average of the cells that the path's names show of that root row.  So in the statement of every build that puts the
field out, each row shows it of the root row that each of its joined rows springs from: up to the equality that DISTINCT
merges by, and without DISTINCT as it is. -/
theorem sum_avg_per_identity {m : Measure} {f : Function} (hm : m.perRow? = some f) (path : String) :
    (∀ s : Scope, (s.measure m path).1 = s.opened ∧
      (∀ mark path', (s.measure m path).1.resolveMarked mark path' =
        ((s.resolveMarked mark path').1.opened, (s.resolveMarked mark path').2)) ∧
      ∀ u, (s.base.readTarget path).2 = .ok u → ∃ t, (s.measure m path).2 = .ok t ∧
        ∀ (d : Dialect) (db : Store), db.Identifies d s.root → ∀ row ∈ db.rows s.root.table,
          ∀ (w : Tuple) (g : List Tuple), w.lookup s.label = some row →
            t.expr.eval d db (w :: g) = d.aggregate f (db.cellsAlong d s.catalog s.root (pathNames path) row)) ∧
    ∀ (catalog : Catalog) (root : Entity) (caps : Capabilities) (r : Request) (wantCount requireProjection : Bool)
      (pre post : List Step) (name : String) (plan : PagePlan),
      (PagePlan.build catalog root caps r wantCount (some ⟨pre ++ .measure m (some name) path :: post, false⟩)
        requireProjection).2 = .ok plan →
      (∀ x ∈ post, x.field? ≠ some name) →
      ∃ i : Nat, (plan.data.statement.items[i]?).map Item.name = some (some name) ∧
        ∀ (d : Dialect) (db : Store), db.Identifies d root → ∀ o ∈ plan.data.statement.rows d db,
          o.members ≠ [] ∧ ∀ w ∈ o.members, ∃ row ∈ db.rows root.table, w.lookup dataLabel = some row ∧
            (o.cells[i]?).map d.key =
              some (d.key (d.aggregate f (db.cellsAlong d catalog root (pathNames path) row))) ∧
            (plan.data.statement.distinct = false →
              o.cells[i]? = some (d.aggregate f (db.cellsAlong d catalog root (pathNames path) row))) := by
  have hvalue : ∀ {s : Scope} {t : Term}, (s.measure m path).2 = .ok t → ∀ {d : Dialect} {db : Store},
      db.Identifies d s.root → ∀ row ∈ db.rows s.root.table, ∀ (w : Tuple) (g : List Tuple),
        w.lookup s.label = some row →
          t.expr.eval d db (w :: g) = d.aggregate f (db.cellsAlong d s.catalog s.root (pathNames path) row) := by
    intro s t ht d db hdb row hrow w g hw
    obtain ⟨hf, type, hmeasure⟩ := Measure.perRow_measure hm s path
    rw [hmeasure] at ht
    exact Scope.eval_perIdentity hf ht hdb hrow hw g
  refine ⟨fun s => ⟨Measure.scope_measure hm s path, fun mark path' => ?_, fun u hu => ?_⟩, ?_⟩
  · rw [Measure.scope_measure hm s path]
    exact Scope.resolveMarked_opened mark path'
  · obtain ⟨t, ht⟩ := Measure.exists_measure hm hu
    exact ⟨t, ht, fun d db => hvalue ht⟩
  · intro catalog root caps r wantCount requireProjection pre post name plan hplan hlast
    obtain ⟨p, hprepare, hdata, -⟩ := build_ok hplan
    obtain ⟨s, orders, hparts⟩ := dataPlan_ok hdata
    have hclosed := closed_prepare hprepare
    have hunder := under_prepare hprepare
    obtain ⟨s₁, t, fields, hgrows, ht, hfields, hmem⟩ := prepare_field hprepare hlast
    obtain ⟨i, hi, hfield⟩ := List.getElem_of_mem hmem
    have hitem : plan.data.statement.items[i]? = some ⟨t.expr, some name⟩ := by
      obtain ⟨extra, hitems, -⟩ := hparts.items
      rw [hfields] at hitems
      rw [hitems, outputOf, List.getElem?_append_left (by simpa using hi), List.getElem?_map,
        List.getElem?_eq_getElem hi, hfield]
      rfl
    refine ⟨i, by rw [hitem]; rfl, fun d db hdb o ho => ?_⟩
    refine ⟨Statement.members_ne_nil (fun g hg => (hparts.of_mem_groups hclosed hunder hg).1) ho, fun w hw => ?_⟩
    obtain ⟨g, hg, hwg, hkeys, hcells⟩ := Statement.exists_group_of_mem_rows ho hw
    obtain ⟨row, hrow, hlookup⟩ := hparts.row_of_mem_groups hclosed hunder hdb hg
    have heval : t.expr.eval d db g = d.aggregate f (db.cellsAlong d catalog root (pathNames path) row) := by
      obtain ⟨v, rest, rfl⟩ := List.exists_cons_of_ne_nil (List.ne_nil_of_mem hwg)
      have hroot : s₁.root = root := hgrows.root
      have hcatalog : s₁.catalog = catalog := hgrows.catalog
      rw [hvalue ht (hroot.symm ▸ hdb) row (hroot.symm ▸ hrow) v rest, hroot, hcatalog]
      rw [hgrows.label]
      exact hlookup v List.mem_cons_self
    refine ⟨row, hrow, hlookup w hwg, ?_, fun hdistinct => ?_⟩
    · have hcell := congrArg (fun ks => ks[i]?) hkeys
      simpa [Dialect.keys, hitem, heval] using hcell
    · rw [hcells hdistinct, List.getElem?_map, hitem, Option.map_some, heval]

/-! ## A name that subqueries have too -/

namespace Sample

def client : Entity :=
  .ofDeclarations "client" "persons" [.scalar "name" .text, .toMany "sub0" "order" "person_id"]

def clients : Catalog := .ofList [client, order]

def bigClients : Request := { Request.all with required := [⟨"sub0.amount", .numeric (.above (.integer 6))⟩] }

end Sample

open Sample in
/-- The criterion keeps one of Ada's orders, of seven, under the label that the subquery has too; the sum is of both. -/
theorem client_totals :
    Measure.perRow? .sum = some .sum ∧
    ∃ plan, (PagePlan.build clients client Backend.postgres.capabilities bigClients false
        (some ⟨[.identity (some "id"), .measure .sum (some "total") "sub0.amount"], false⟩) false).2 = .ok plan ∧
      ((∃ j ∈ plan.data.statement.joins, j.label = (Scope.new clients client dataLabel).detached.label) ∧
        (plan.data.statement.rows .plain store).map ResultRow.cells = [[some (.int64 1), some (.int64 12)]]) ∧
      ∃ i : Nat, (plan.data.statement.items[i]?).map Item.name = some (some "total") ∧
        ∀ o ∈ plan.data.statement.rows .plain store, ∀ w ∈ o.members, ∃ row ∈ store.rows "persons",
          w.lookup dataLabel = some row ∧
            (o.cells[i]?).map Dialect.plain.key = some (Dialect.plain.key (Dialect.plain.aggregate .sum
              (store.cellsAlong .plain clients client (pathNames "sub0.amount") row))) := by
  refine ⟨rfl, ?_⟩
  obtain ⟨plan, hplan, hjoined⟩ := exists_ok
    (P := fun plan : PagePlan =>
      (∃ j ∈ plan.data.statement.joins, j.label = (Scope.new clients client dataLabel).detached.label) ∧
        (plan.data.statement.rows .plain store).map ResultRow.cells = [[some (.int64 1), some (.int64 12)]])
    (x := (PagePlan.build clients client Backend.postgres.capabilities bigClients false
      (some ⟨[.identity (some "id"), .measure .sum (some "total") "sub0.amount"], false⟩) false).2) (by decide +kernel)
  obtain ⟨i, hitem, hrows⟩ := (sum_avg_per_identity (m := .sum) rfl "sub0.amount").2 clients client
    Backend.postgres.capabilities bigClients false false [.identity (some "id")] [] "total" plan hplan
    fun x hx => (List.not_mem_nil hx).elim
  refine ⟨plan, hplan, hjoined, i, hitem, fun o ho w hw => ?_⟩
  obtain ⟨row, hrow, hlookup, hcell, -⟩ := (hrows .plain store (by decide +kernel) o ho).2 w hw
  exact ⟨row, hrow, hlookup, hcell⟩

end PageQuery
