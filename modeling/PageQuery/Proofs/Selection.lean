import PageQuery.Proofs.Closed
/-!
# Which root rows a restriction selects

A restriction is about root rows.  Joins make several joined rows of one root row; the conditions of rows keep some of
them, and the conditions of groups are asked of those together.  This is what the rows, the total and a negation all
come down to, whatever the labels are, and however many joins an ordering adds.
-/
namespace PageQuery

/-- A root under a label with its joins, and conditions of rows and of groups. -/
structure Selection where
  root : Entity
  label : String
  joins : List Join
  conditions : List Expr
  having : List Expr

namespace Selection
variable (d : Dialect) (db : Store) (q : Selection)

def span (r : Row) : List Tuple := Tuple.joined d db q.joins [(q.label, r)]

def kept (r : Row) : List Tuple := (q.span d db r).filter fun w => holdsAll d db q.conditions [w]

/-- A root row is selected when some of its joined rows are kept and those, together, satisfy the conditions of
groups. -/
def selects (r : Row) : Bool := !(q.kept d db r).isEmpty && holdsAll d db q.having (q.kept d db r)

/-- The identity that a joined row shows. -/
def ident (w : Tuple) : Option d.Rank := d.key (w.cell ⟨q.label, q.root.identityColumn⟩)

/-- The conditions see the labels of the selection only, and are steady. -/
def Closed : Prop := ∀ e ∈ q.conditions ++ q.having, e.Steady d db (labelsOf q.label q.joins)

def groupBy : List Expr := if q.having.isEmpty then [] else [Expr.col q.label q.root.identityColumn]

variable {d db q}

theorem selects_iff (r : Row) :
    q.selects d db r = true ↔ q.kept d db r ≠ [] ∧ holdsAll d db q.having (q.kept d db r) = true := by
  unfold selects
  rw [Bool.and_eq_true, Bool.not_eq_true', ← Bool.not_eq_true, List.isEmpty_iff]

/-! ## Joined rows and their root row -/

theorem lookup_of_mem_span {r : Row} {w : Tuple} (h : w ∈ q.span d db r) : w.lookup q.label = some r := by
  obtain ⟨u, rfl, -⟩ := Tuple.mem_joined d db h
  simp

theorem ident_of_mem_span {r : Row} {w : Tuple} (h : w ∈ q.span d db r) :
    q.ident d w = d.key (r q.root.identityColumn) := by
  unfold ident Tuple.cell
  rw [lookup_of_mem_span h]

theorem tuples_eq (d : Dialect) (db : Store) (q : Selection) :
    db.tuples d q.root.table q.label q.joins = (db.rows q.root.table).flatMap (q.span d db) := rfl

theorem exists_span_of_ident_eq (hdb : db.Keyed d q.root.table q.root.identityColumn) {x y : Tuple}
    (hx : x ∈ db.tuples d q.root.table q.label q.joins) (hy : y ∈ db.tuples d q.root.table q.label q.joins)
    (hxy : q.ident d x = q.ident d y) : ∃ r ∈ db.rows q.root.table, x ∈ q.span d db r ∧ y ∈ q.span d db r := by
  rw [tuples_eq] at hx hy
  obtain ⟨r, hr, hxr⟩ := List.mem_flatMap.1 hx
  obtain ⟨t, ht, hyt⟩ := List.mem_flatMap.1 hy
  have hnames : d.key (r q.root.identityColumn) = d.key (t q.root.identityColumn) := by
    rw [← ident_of_mem_span hxr, ← ident_of_mem_span hyt, hxy]
  obtain rfl := eq_of_name_eq hdb.apart hr ht hnames
  exact ⟨r, hr, hxr, hyt⟩

theorem pairwise_ident_of_single (hdb : db.Keyed d q.root.table q.root.identityColumn)
    (hsingle : ∀ r, (q.span d db r).length = 1) :
    (db.tuples d q.root.table q.label q.joins).Pairwise fun x y => q.ident d x ≠ q.ident d y := by
  rw [tuples_eq]
  refine List.pairwise_flatMap.2 ⟨fun r _ => ?_, hdb.apart.imp fun hne x hx y hy => ?_⟩
  · obtain ⟨w, hw⟩ := List.length_eq_one_iff.1 (hsingle r)
    rw [hw]
    exact List.pairwise_singleton _ w
  · rw [ident_of_mem_span hx, ident_of_mem_span hy]
    exact hne

theorem length_dedup_idents (hdb : db.Keyed d q.root.table q.root.identityColumn) (keep : Tuple → Bool) :
    (((db.tuples d q.root.table q.label q.joins).filter keep).map (q.ident d)).dedup.length =
      (db.rows q.root.table).countP fun r => !((q.span d db r).filter keep).isEmpty := by
  have hspan : ∀ r ∈ db.rows q.root.table, ∀ w ∈ q.span d db r, q.ident d w = d.key (r q.root.identityColumn) :=
    fun r _ w hw => ident_of_mem_span hw
  have hparts := length_pick hspan hdb.apart keep false (q.ident d) (fun _ => true) fun x _ y _ => Iff.rfl
  rw [← tuples_eq] at hparts
  simpa [pick, length_parts] using hparts

theorem extend_ne_nil (d : Dialect) (db : Store) (w : Tuple) (j : Join) : w.extend d db j ≠ [] := by
  unfold Tuple.extend
  split
  · exact List.cons_ne_nil _ _
  · exact List.cons_ne_nil _ _

theorem joined_ne_nil (d : Dialect) (db : Store) : ∀ (js : List Join) (w : Tuple), Tuple.joined d db js w ≠ []
  | [], w => List.cons_ne_nil w []
  | j :: js, w => by
    obtain ⟨v, hv⟩ := List.exists_mem_of_ne_nil _ (extend_ne_nil d db w j)
    obtain ⟨u, hu⟩ := List.exists_mem_of_ne_nil _ (joined_ne_nil d db js v)
    exact List.ne_nil_of_mem (List.mem_flatMap.2 ⟨v, hv, hu⟩)

theorem joined_append (d : Dialect) (db : Store) (js ks : List Join) : ∀ w : Tuple,
    Tuple.joined d db (js ++ ks) w = (Tuple.joined d db js w).flatMap (Tuple.joined d db ks) := by
  induction js with
  | nil => exact fun w => by simp [Tuple.joined]
  | cons j js ih =>
    intro w
    rw [List.cons_append, Tuple.joined, Tuple.joined, List.flatMap_assoc]
    exact List.flatMap_congr fun v _ => ih v

/-! ## Further joins -/

def join (q : Selection) (js : List Join) : Selection := { q with joins := q.joins ++ js }

/-- Further joins repeat the joined rows, under the labels that were there. -/
theorem span_join (js : List Join) (r : Row) :
    Spread (Tuple.Alike (labelsOf q.label q.joins)) (q.span d db r) ((q.join js).span d db r) := by
  have hspan : (q.join js).span d db r = (q.span d db r).flatMap (Tuple.joined d db js) := joined_append d db _ _ _
  rw [hspan]
  refine Spread.flatMap (fun w _ => joined_ne_nil d db js w) fun w hw v hv => ?_
  obtain ⟨u, rfl, -⟩ := Tuple.mem_joined d db hv
  obtain ⟨x, hx, hlabels⟩ := Tuple.mem_joined d db hw
  refine Tuple.alike_append (fun l hl => ?_) u
  have hmem : l ∈ w.map Prod.fst := by
    rw [hx, List.map_append, hlabels]
    exact hl
  obtain ⟨p, hp, rfl⟩ := List.mem_map.1 hmem
  exact List.lookup_isSome_iff.2 ⟨p, hp, beq_self_eq_true _⟩

/-- **Further joins change nothing that is selected.** -/
theorem selects_join (hq : q.Closed d db) (js : List Join) (r : Row) :
    (q.join js).selects d db r = q.selects d db r := by
  have hconditions : ∀ e ∈ q.conditions, e.Steady d db (labelsOf q.label q.joins) :=
    fun e he => hq e (List.mem_append_left _ he)
  have hhaving : ∀ e ∈ q.having, e.Steady d db (labelsOf q.label q.joins) :=
    fun e he => hq e (List.mem_append_right _ he)
  have hkept : Spread (Tuple.Alike (labelsOf q.label q.joins)) (q.kept d db r) ((q.join js).kept d db r) := by
    refine (span_join js r).filter fun w v hwv => ?_
    exact holdsAll_steady hconditions (.one hwv .nil)
  have hsame : (q.join js).having = q.having := rfl
  rw [Bool.eq_iff_iff, selects_iff, selects_iff, ne_eq, ← hkept.eq_nil_iff, hsame, ← holdsAll_steady hhaving hkept]

/-! ## Other labels -/

def relabel (f : String → String) (q : Selection) : Selection :=
  { q with
    label := f q.label
    joins := q.joins.map (Join.relabel f)
    conditions := q.conditions.map (Expr.relabel f)
    having := q.having.map (Expr.relabel f) }

/-- **Other labels change nothing that is selected**, if different labels stay different. -/
theorem selects_relabel {f : String → String} (hf : Function.Injective f) (r : Row) :
    (q.relabel f).selects d db r = q.selects d db r := by
  have hspan : (q.relabel f).span d db r = (q.span d db r).map (Tuple.relabel f) :=
    Tuple.joined_relabel d db hf q.joins [(q.label, r)]
  have hkept : (q.relabel f).kept d db r = (q.kept d db r).map (Tuple.relabel f) := by
    unfold kept
    rw [hspan, List.filter_map]
    congr 1
    refine List.filter_congr fun w _ => ?_
    exact holdsAll_relabel hf d db q.conditions [w]
  have hsame : (q.relabel f).having = q.having.map (Expr.relabel f) := rfl
  unfold selects
  rw [hkept, List.isEmpty_map, hsame, holdsAll_relabel hf d db]

/-! ## Groups of joined rows

`keys` are what the joined rows are grouped by. -/

section
variable (hdb : db.Keyed d q.root.table q.root.identityColumn)
include hdb

/-- **A root row has a part in some group put out** just if some part of its own joined rows satisfies the conditions of
groups, when the grouping tells root rows apart; and without conditions of groups it does not matter how the rows are
grouped. -/
theorem exists_group_iff {keep : Tuple → Bool} {bare : Bool} (aggregated : Bool) {keys having : List Expr}
    (hkeys : having = [] ∨ bare = false ∧
      ∀ x ∈ (db.tuples d q.root.table q.label q.joins).filter keep,
        ∀ y ∈ (db.tuples d q.root.table q.label q.joins).filter keep,
          groupKey d db keys x = groupKey d db keys y → q.ident d x = q.ident d y)
    {r : Row} (hr : r ∈ db.rows q.root.table) :
    (∃ g ∈ pick keep bare aggregated (groupKey d db keys) (holdsAll d db having)
        (db.tuples d q.root.table q.label q.joins), ∃ w ∈ g, q.ident d w = d.key (r q.root.identityColumn)) ↔
      ∃ x ∈ (q.span d db r).filter keep, holdsAll d db having (((q.span d db r).filter keep).filter
        fun y => decide (groupKey d db keys y = groupKey d db keys x)) = true := by
  have hspan : ∀ r ∈ db.rows q.root.table, ∀ w ∈ q.span d db r, q.ident d w = d.key (r q.root.identityColumn) :=
    fun r _ w hw => ident_of_mem_span hw
  rw [tuples_eq] at hkeys ⊢
  refine exists_mem_pick_iff hspan hdb.apart ?_ hr
  rcases hkeys with rfl | hkeys
  · exact .inl fun _ => rfl
  · exact .inr hkeys

end

theorem groupKey_identity (w : Tuple) :
    groupKey d db [Expr.col q.label q.root.identityColumn] w = [q.ident d w] := by
  simp [groupKey, Expr.col, Expr.eval, ident]

theorem groupKey_groupBy (hbare : q.groupBy.isEmpty = false) (x y : Tuple) :
    groupKey d db q.groupBy x = groupKey d db q.groupBy y ↔ q.ident d x = q.ident d y := by
  have hkeys : q.groupBy = [Expr.col q.label q.root.identityColumn] := by
    unfold groupBy at hbare ⊢
    cases hhaving : q.having.isEmpty with
    | true =>
      rw [hhaving] at hbare
      cases hbare
    | false => rfl
  rw [hkeys, groupKey_identity, groupKey_identity, List.cons.injEq, and_iff_left rfl]

theorem having_eq_nil_of_bare (hbare : q.groupBy.isEmpty = true) : q.having = [] := by
  unfold groupBy at hbare
  cases hhaving : q.having.isEmpty with
  | true => exact List.isEmpty_iff.1 hhaving
  | false =>
    rw [hhaving] at hbare
    cases hbare

/-! ## Subqueries -/

theorem alike_outer {w : Tuple} (hw : w ∈ db.tuples d q.root.table q.label q.joins) (outer : Tuple) :
    (w ++ outer).Alike (labelsOf q.label q.joins) w := fun l hl =>
  (Tuple.alike_append (shows_of_mem_tuples hw) outer l hl).symm

/-- What a closed selection puts out as a subquery, `keep` being what its conditions say beside an outer row. -/
theorem eval_select (hq : q.Closed d db) {item : Expr} {conditions : List Expr} {outer : Tuple} {keep : Tuple → Bool}
    (hkeep : ∀ w ∈ db.tuples d q.root.table q.label q.joins, holdsAll d db conditions [w ++ outer] = keep w) :
    (Subquery.select item q.root.table q.label q.joins conditions q.groupBy q.having).eval d db outer =
      (pick keep q.groupBy.isEmpty (item.isAggregate || !q.having.isEmpty) (groupKey d db q.groupBy)
        (holdsAll d db q.having) (db.tuples d q.root.table q.label q.joins)).map
          fun g => item.eval d db (g.map (· ++ outer)) := by
  have hgroupBy : ∀ e ∈ q.groupBy, e.Steady d db (labelsOf q.label q.joins) := by
    intro e he
    unfold groupBy at he
    split at he
    · cases he
    · rw [List.mem_singleton.1 he]
      exact .col List.mem_cons_self
  have hhaving : ∀ e ∈ q.having, e.Steady d db (labelsOf q.label q.joins) :=
    fun e he => hq e (List.mem_append_right _ he)
  rw [Subquery.eval_select]
  congr 1
  refine pick_congr hkeep (fun w hw => ?_) (fun g hg => ?_)
  · refine List.map_congr_left fun e he => ?_
    rw [(hgroupBy e he).sees.one (alike_outer hw outer)]
  · refine holdsAll_sees (fun e he => (hhaving e he).sees) ?_
    refine List.forall₂_map_left_iff.2 (List.forall₂_same.2 fun w hw => ?_)
    exact alike_outer (hg w hw) outer

theorem not_aggregated_of_bare (hbare : q.groupBy.isEmpty = true) : (!q.having.isEmpty) = false := by
  rw [having_eq_nil_of_bare hbare]
  rfl

def groups (d : Dialect) (db : Store) (q : Selection) : List (List Tuple) :=
  pick (fun w => holdsAll d db q.conditions [w]) q.groupBy.isEmpty (!q.having.isEmpty) (groupKey d db q.groupBy)
    (holdsAll d db q.having) (db.tuples d q.root.table q.label q.joins)

def Shows (d : Dialect) (db : Store) (q : Selection) (id : Option d.Rank) : Prop :=
  ∃ g ∈ q.groups d db, ∃ w ∈ g, q.ident d w = id

theorem ident_eq_of_mem_groups {g : List Tuple} (hg : g ∈ q.groups d db) {x y : Tuple} (hx : x ∈ g) (hy : y ∈ g) :
    q.ident d x = q.ident d y :=
  eq_of_mem_pick not_aggregated_of_bare (fun hbare x _ y _ hxy => (groupKey_groupBy hbare x y).1 hxy) hg hx hy

/-- **A subquery about one identity finds something** just if the identity is shown: rows of other identities left out
before the grouping would have been in other groups. -/
theorem eval_linked_ne_nil_iff (hq : q.Closed d db) {item : Expr} (hitem : item.isAggregate = false)
    {conditions : List Expr} {outer : Tuple} {id : Option d.Rank}
    (hlink : ∀ w ∈ db.tuples d q.root.table q.label q.joins, holdsAll d db conditions [w ++ outer] =
      (holdsAll d db q.conditions [w] && decide (q.ident d w = id))) :
    (Subquery.select item q.root.table q.label q.joins conditions q.groupBy q.having).eval d db outer ≠ [] ↔
      q.Shows d db id := by
  have hkey : q.groupBy.isEmpty = false → ∀ x y, groupKey d db q.groupBy x = groupKey d db q.groupBy y →
      q.ident d x = q.ident d y := fun hbare x y => (groupKey_groupBy hbare x y).1
  rw [eval_select hq hlink, hitem, Bool.false_or, ne_eq, List.map_eq_nil_iff]
  constructor
  · intro hne
    obtain ⟨g, hg⟩ := List.exists_mem_of_ne_nil _ hne
    exact ⟨g, (mem_pick_ident not_aggregated_of_bare hkey).1 hg⟩
  · rintro ⟨g, hg⟩
    exact List.ne_nil_of_mem ((mem_pick_ident not_aggregated_of_bare hkey).2 hg)

/-- **An identity is among those of a subquery** just if it is shown: a group puts out the identity of its first row,
which is that of all its rows. -/
theorem eval_identities_any_iff (hq : q.Closed d db) (outer : Tuple) {c : Cell} (hc : c.isSome = true) :
    ((Subquery.select (Expr.col q.label q.root.identityColumn) q.root.table q.label q.joins q.conditions q.groupBy
      q.having).eval d db outer).any (d.equal c) = true ↔ q.Shows d db (d.key c) := by
  have hconditions : ∀ e ∈ q.conditions, e.Steady d db (labelsOf q.label q.joins) :=
    fun e he => hq e (List.mem_append_left _ he)
  have hkeep : ∀ w ∈ db.tuples d q.root.table q.label q.joins,
      holdsAll d db q.conditions [w ++ outer] = holdsAll d db q.conditions [w] := fun w hw =>
    holdsAll_sees (fun e he => (hconditions e he).sees) (.cons (alike_outer hw outer) .nil)
  have hitem : (Expr.col q.label q.root.identityColumn).isAggregate = false := rfl
  rw [eval_select hq hkeep, hitem, Bool.false_or, List.any_map, List.any_eq_true]
  refine exists_congr fun g => and_congr_right fun hg => ?_
  obtain ⟨v, rest, rfl⟩ := List.exists_cons_of_ne_nil (ne_nil_of_mem_pick not_aggregated_of_bare hg)
  have hv : v ∈ db.tuples d q.root.table q.label q.joins :=
    (List.mem_filter.1 (mem_of_mem_parts (mem_pick.1 hg).1 List.mem_cons_self)).1
  have hcell : (Expr.col q.label q.root.identityColumn).eval d db ((v :: rest).map (· ++ outer)) =
      v.cell ⟨q.label, q.root.identityColumn⟩ := by
    simp only [Expr.col, Expr.eval, List.map_cons, List.headD_cons]
    exact Tuple.cell_congr (alike_outer hv outer) List.mem_cons_self
  have hequal : d.equal c (v.cell ⟨q.label, q.root.identityColumn⟩) = true ↔ q.ident d v = d.key c := by
    unfold Dialect.equal
    rw [hc, Bool.true_and, decide_eq_true_eq, eq_comm]
    rfl
  rw [Function.comp_apply, hcell, hequal]
  constructor
  · exact fun h => ⟨v, List.mem_cons_self, h⟩
  · rintro ⟨w, hw, h⟩
    exact (ident_eq_of_mem_groups hg List.mem_cons_self hw).trans h

theorem shows_of_free (hconditions : q.conditions = []) (hhaving : q.having = []) {r : Row}
    (hr : r ∈ db.rows q.root.table) : q.Shows d db (d.key (r q.root.identityColumn)) := by
  obtain ⟨w, hw⟩ := List.exists_mem_of_ne_nil _ (joined_ne_nil d db q.joins [(q.label, r)])
  have hkept : w ∈ (db.tuples d q.root.table q.label q.joins).filter fun w => holdsAll d db q.conditions [w] := by
    rw [hconditions]
    exact List.mem_filter.2 ⟨List.mem_flatMap.2 ⟨r, hr, hw⟩, rfl⟩
  obtain ⟨g, hg, hwg⟩ := exists_mem_parts q.groupBy.isEmpty (!q.having.isEmpty) (groupKey d db q.groupBy) hkept
  refine ⟨g, mem_pick.2 ⟨hg, ?_⟩, w, hwg, ident_of_mem_span hw⟩
  rw [hhaving]
  rfl

theorem shows_relabel {f : String → String} (hf : Function.Injective f) (hq : q.Closed d db)
    (hrelabel : (q.relabel f).Closed d db) {c : Cell} (hc : c.isSome = true) :
    (q.relabel f).Shows d db (d.key c) ↔ q.Shows d db (d.key c) := by
  have hgroupBy : (q.relabel f).groupBy = q.groupBy.map (Expr.relabel f) := by
    unfold groupBy relabel
    cases q.having <;> rfl
  have hcol : Expr.col (f q.label) q.root.identityColumn = (Expr.col q.label q.root.identityColumn).relabel f := by
    simp [Expr.col, Expr.relabel, Column.relabel]
  rw [← eval_identities_any_iff hrelabel [] hc, ← eval_identities_any_iff hq [] hc, hgroupBy]
  simp only [relabel]
  rw [hcol, ← Subquery.relabel_select]
  exact iff_of_eq (congrArg (fun cs => List.any cs (d.equal c) = true) (Subquery.eval_relabel hf d db _ []))

section
variable (hdb : db.Keyed d q.root.table q.root.identityColumn)
include hdb

theorem shows_iff {r : Row} (hr : r ∈ db.rows q.root.table) :
    q.Shows d db (d.key (r q.root.identityColumn)) ↔ q.selects d db r = true := by
  have hkeys : q.having = [] ∨ q.groupBy.isEmpty = false ∧
      ∀ x ∈ (db.tuples d q.root.table q.label q.joins).filter fun w => holdsAll d db q.conditions [w],
        ∀ y ∈ (db.tuples d q.root.table q.label q.joins).filter fun w => holdsAll d db q.conditions [w],
          groupKey d db q.groupBy x = groupKey d db q.groupBy y → q.ident d x = q.ident d y := by
    cases hbare : q.groupBy.isEmpty with
    | true => exact .inl (having_eq_nil_of_bare hbare)
    | false => exact .inr ⟨rfl, fun x _ y _ => (groupKey_groupBy hbare x y).1⟩
  rw [selects_iff]
  refine Iff.trans (exists_group_iff hdb _ hkeys hr) (exists_part_iff fun x hx y hy => ?_)
  have hident : q.ident d y = q.ident d x := by
    rw [ident_of_mem_span (List.mem_filter.1 hx).1, ident_of_mem_span (List.mem_filter.1 hy).1]
  cases hbare : q.groupBy.isEmpty with
  | true =>
    rw [List.isEmpty_iff.1 hbare]
    rfl
  | false => exact (groupKey_groupBy hbare y x).2 hident

end

end Selection
end PageQuery
