import PageQuery.Proofs.Selection
/-!
# What statements show of a selection

A statement of rows draws a root row when some joined row of it is in a group put out, so when some part of its joined
rows satisfies the conditions of groups.  A total counts the root rows that satisfy its condition, so those whose joined
rows satisfy them all together.
-/
namespace PageQuery

variable {d : Dialect} {db : Store}

/-! ## Rows -/

namespace Statement
variable (d : Dialect) (db : Store) (q : Statement)

def kept : List Tuple := (db.tuples d q.table q.label q.joins).filter fun w => holdsAll d db q.conditions [w]

def keptOf (column : String) (id : Cell) : List Tuple := (q.kept d db).filter (q.isOf d column id)

/-- The joined rows of each root row pass the conditions of groups in parts just if they pass them together. -/
def AsksWhole (column : String) : Prop :=
  ∀ row ∈ db.rows q.table,
    (∃ x ∈ q.keptOf d db column (row column), holdsAll d db q.having ((q.keptOf d db column (row column)).filter
      fun y => decide (groupKey d db q.groupBy y = groupKey d db q.groupBy x)) = true) ↔
    q.keptOf d db column (row column) ≠ [] ∧ holdsAll d db q.having (q.keptOf d db column (row column)) = true

instance (column : String) : Decidable (q.AsksWhole d db column) :=
  inferInstanceAs (Decidable (∀ row ∈ db.rows q.table, _ ↔ _))

/-- Whether a root row satisfies the conditions by itself. -/
def admits (row : Row) : Bool := holdsAll d db q.conditions [[(q.label, row)]]

variable {d db q}

theorem mem_members_mergeRows {rs : List ResultRow} {w : Tuple} :
    (∃ row ∈ mergeRows d rs, w ∈ row.members) ↔ ∃ row ∈ rs, w ∈ row.members := by
  unfold mergeRows
  constructor
  · rintro ⟨row, hrow, hw⟩
    obtain ⟨same, hsame, rfl⟩ := List.mem_map.1 hrow
    obtain ⟨x, hx, hwx⟩ := List.mem_flatMap.1 hw
    exact ⟨x, mem_of_mem_parts hsame hx, hwx⟩
  · rintro ⟨x, hx, hwx⟩
    obtain ⟨same, hsame, hxs⟩ := exists_mem_parts false false (fun r : ResultRow => d.keys r.cells) hx
    exact ⟨_, List.mem_map_of_mem hsame, List.mem_flatMap.2 ⟨x, hxs, hwx⟩⟩

theorem mem_members_rows {w : Tuple} :
    (∃ row ∈ q.rows d db, w ∈ row.members) ↔ ∃ g ∈ q.groups d db, w ∈ g := by
  have hgroups : (∃ row ∈ (q.groups d db).map fun g => (⟨q.items.map fun i => i.expr.eval d db g, g⟩ : ResultRow),
      w ∈ row.members) ↔ ∃ g ∈ q.groups d db, w ∈ g := by
    simp
  unfold rows
  simp only
  split
  · rw [mem_members_mergeRows, hgroups]
  · exact hgroups

theorem draws_iff (column : String) (id : Cell) :
    q.draws d db column id = true ↔
      ∃ g ∈ q.groups d db, ∃ w ∈ g, d.key (w.cell ⟨q.label, column⟩) = d.key id := by
  have hdraws : q.draws d db column id = true ↔ ∃ w, (∃ row ∈ q.rows d db, w ∈ row.members) ∧
      d.key (w.cell ⟨q.label, column⟩) = d.key id := by
    simp only [draws, isOf, List.any_eq_true, decide_eq_true_eq]
    constructor
    · rintro ⟨row, hrow, w, hw, h⟩
      exact ⟨w, ⟨row, hrow, hw⟩, h⟩
    · rintro ⟨w, ⟨row, hrow, hw⟩, h⟩
      exact ⟨row, hrow, w, hw, h⟩
  rw [hdraws]
  constructor
  · rintro ⟨w, hw, h⟩
    obtain ⟨g, hg, hwg⟩ := mem_members_rows.1 hw
    exact ⟨g, hg, w, hwg, h⟩
  · rintro ⟨g, hg, w, hwg, h⟩
    exact ⟨w, mem_members_rows.2 ⟨g, hg, hwg⟩, h⟩

end Statement

structure Statement.Reads (q : Statement) (sel : Selection) : Prop where
  table : q.table = sel.root.table
  label : q.label = sel.label
  joins : q.joins = sel.joins
  conditions : q.conditions = sel.conditions
  having : q.having = sel.having

theorem Statement.Reads.keptOf_eq {q : Statement} {sel : Selection} (hq : q.Reads sel)
    (hdb : db.Keyed d sel.root.table sel.root.identityColumn) {r : Row} (hr : r ∈ db.rows sel.root.table) :
    q.keptOf d db sel.root.identityColumn (r sel.root.identityColumn) = sel.kept d db r := by
  have hspan : ∀ r ∈ db.rows sel.root.table, ∀ w ∈ sel.span d db r,
      sel.ident d w = d.key (r sel.root.identityColumn) := fun r _ w hw => Selection.ident_of_mem_span hw
  have hisOf : q.isOf d sel.root.identityColumn (r sel.root.identityColumn) =
      fun w => decide (sel.ident d w = d.key (r sel.root.identityColumn)) := by
    funext w
    unfold Statement.isOf
    rw [hq.label]
    rfl
  unfold Statement.keptOf Statement.kept Selection.kept
  rw [hisOf, hq.table, hq.label, hq.joins, hq.conditions, Selection.tuples_eq,
    filter_ident_kept hspan hdb.apart hr]

/-- **Rows are drawn of the root rows that pass the conditions of groups in some part**, if there are none or the
grouping tells root rows apart. -/
theorem Statement.Reads.draws_iff {q : Statement} {sel : Selection} (hq : q.Reads sel)
    (hdb : db.Keyed d sel.root.table sel.root.identityColumn)
    (hkeys : q.having = [] ∨ q.groupBy.isEmpty = false ∧ ∀ x ∈ q.kept d db, ∀ y ∈ q.kept d db,
      groupKey d db q.groupBy x = groupKey d db q.groupBy y → sel.ident d x = sel.ident d y)
    {r : Row} (hr : r ∈ db.rows sel.root.table) :
    q.draws d db sel.root.identityColumn (r sel.root.identityColumn) = true ↔
      ∃ x ∈ sel.kept d db r, holdsAll d db sel.having ((sel.kept d db r).filter
        fun y => decide (groupKey d db q.groupBy y = groupKey d db q.groupBy x)) = true := by
  unfold Statement.kept at hkeys
  rw [hq.table, hq.label, hq.joins, hq.conditions, hq.having] at hkeys
  have hgroups := Selection.exists_group_iff hdb q.aggregated hkeys hr
  rw [Statement.draws_iff]
  unfold Statement.groups
  rw [hq.table, hq.label, hq.joins, hq.conditions, hq.having]
  exact hgroups

/-! ## Restrictions of rows -/

namespace Restriction

theorem foldl_addPredicate_row : ∀ {ps : List Predicate}, (∀ p ∈ ps, p.level = .row) → ∀ r : Restriction,
    ps.foldl addPredicate r = ⟨r.conditions ++ ps.map Predicate.expr, r.groupBy,
      r.having ++ ps.flatMap fun p => p.countTest.toList⟩
  | [], _, r => by simp
  | p :: ps, hps, r => by
    have hp : p.level = .row := hps p List.mem_cons_self
    rw [List.foldl_cons, foldl_addPredicate_row fun q hq => hps q (List.mem_cons_of_mem p hq)]
    simp [addPredicate, hp]

theorem addOptional_row {ps : List Predicate} (hps : ∀ p ∈ ps, p.level = .row) (r : Restriction) :
    r.addOptional ps =
      { r with conditions := r.conditions ++ (Expr.disjunction (ps.map Predicate.expr)).toList } := by
  have hlevels : ps.any (fun p => p.level == .group) = false :=
    List.any_eq_false.2 fun p hp => by simp [hps p hp]
  unfold addOptional
  rw [hlevels]
  cases Expr.disjunction (ps.map Predicate.expr) <;> simp

end Restriction

theorem isTrue_iff {c : Cell} : isTrue c = true ↔ c = some (.boolean true) := by
  unfold isTrue
  split <;> simp_all

theorem isTrue_eitherOf (a b : Cell) : isTrue (eitherOf a b) = (isTrue a || isTrue b) := by
  unfold eitherOf
  split
  · rfl
  · rfl
  · rw [Bool.or_comm]
    rfl
  · next ha hb _ =>
    have ha' : isTrue a = false := Bool.eq_false_iff.2 fun h => ha (isTrue_iff.1 h)
    have hb' : isTrue b = false := Bool.eq_false_iff.2 fun h => hb (isTrue_iff.1 h)
    rw [ha', hb']
    rfl

theorem isTrue_foldl_or {g : List Tuple} : ∀ (es : List Expr) (e : Expr),
    isTrue ((es.foldl Expr.or e).eval d db g) = (e :: es).any fun x => isTrue (x.eval d db g)
  | [], e => by simp
  | x :: es, e => by
    rw [List.foldl_cons, isTrue_foldl_or es, List.any_cons, List.any_cons, List.any_cons, ← Bool.or_assoc, Expr.eval,
      isTrue_eitherOf]

theorem holdsAll_disjunction (es : List Expr) (g : List Tuple) :
    holdsAll d db (Expr.disjunction es).toList g = true ↔ es = [] ∨ ∃ e ∈ es, isTrue (e.eval d db g) = true := by
  cases es with
  | nil => simp [Expr.disjunction, holdsAll]
  | cons e es =>
    rw [Expr.disjunction, Option.toList_some, holdsAll, List.all_cons, List.all_nil, Bool.and_true, isTrue_foldl_or,
      List.any_eq_true]
    simp

/-! ## Conditions about one identity -/

theorem isTrue_truth (b : Bool) : isTrue (truth b) = b := rfl

theorem isTrue_compare_eq (a : Cell) {b : Cell} (hb : b.isSome = true) :
    isTrue (d.compare .eq a b) = decide (d.key a = d.key b) := by
  obtain ⟨w, rfl⟩ := Option.isSome_iff_exists.1 hb
  cases a with
  | none => simp [Dialect.compare, Dialect.key, isTrue]
  | some v => simp [Dialect.compare, Dialect.key, Dialect.test, isTrue, truth]

theorem isTrue_among (c : Cell) (cs : List Cell) : isTrue (d.among c cs) = cs.any (d.equal c) := by
  unfold Dialect.among
  cases cs.any (d.equal c) with
  | true => rfl
  | false =>
    simp only [Bool.false_eq_true, if_false]
    split
    · rfl
    · split <;> rfl

namespace Selection
variable {q : Selection}

theorem lookup_outer {w : Tuple} (hw : w ∈ db.tuples d q.root.table q.label q.joins) {l : String}
    (hl : ¬labelsOf q.label q.joins l) (outer : Tuple) : (w ++ outer).lookup l = outer.lookup l := by
  have hnone : w.lookup l = none := by
    rw [← Option.not_isSome_iff_eq_none]
    intro hsome
    obtain ⟨p, hp, hpl⟩ := List.lookup_isSome_iff.1 hsome
    obtain ⟨r, -, hwr⟩ := List.mem_flatMap.1 hw
    obtain ⟨u, rfl, hu⟩ := Tuple.mem_joined d db hwr
    refine hl ?_
    have hmem : p.1 ∈ ([(q.label, r)] ++ u).map Prod.fst := List.mem_map_of_mem hp
    rw [List.map_append, hu, ← beq_iff_eq.1 hpl] at hmem
    exact hmem
  rw [List.lookup_append, hnone, Option.none_or]

theorem holds_link {w : Tuple} (hw : w ∈ db.tuples d q.root.table q.label q.joins) {l : String}
    (hl : ¬labelsOf q.label q.joins l) {outer : Tuple} {r : Row} (houter : outer.lookup l = some r)
    (hfilled : (r q.root.identityColumn).isSome = true) :
    isTrue ((Expr.eq (Expr.col q.label q.root.identityColumn) (Expr.col l q.root.identityColumn)).eval d db
      [w ++ outer]) = decide (q.ident d w = d.key (r q.root.identityColumn)) := by
  have hown : (w ++ outer).cell ⟨q.label, q.root.identityColumn⟩ = w.cell ⟨q.label, q.root.identityColumn⟩ :=
    Tuple.cell_congr (alike_outer hw outer) List.mem_cons_self
  have hlinked : (w ++ outer).cell ⟨l, q.root.identityColumn⟩ = r q.root.identityColumn := by
    unfold Tuple.cell
    rw [lookup_outer hw hl, houter]
  simp only [Expr.eq, Expr.col, Expr.eval, List.headD_cons]
  rw [hown, hlinked, isTrue_compare_eq _ hfilled]
  rfl

/-- **The condition of a total is that the identity is shown**, in either idiom. -/
theorem holds_countCondition_iff (hq : q.Closed d db) (hlabel : ¬labelsOf q.label q.joins countLabel)
    (idiom : CountIdiom) {r : Row} (hfilled : (r q.root.identityColumn).isSome = true) :
    holdsAll d db [countCondition q.root idiom q.label q.joins ⟨q.conditions, q.groupBy, q.having⟩]
      [[(countLabel, r)]] = true ↔ q.Shows d db (d.key (r q.root.identityColumn)) := by
  have hhead : (Expr.col countLabel q.root.identityColumn).eval d db [[(countLabel, r)]] =
      r q.root.identityColumn := by
    simp [Expr.col, Expr.eval, Tuple.cell]
  simp only [holdsAll, List.all_cons, List.all_nil, Bool.and_true, countCondition, identitySubquery]
  cases idiom with
  | inQuery =>
    simp only [Expr.eval, hhead, List.headD_cons, isTrue_among]
    exact eval_identities_any_iff hq _ hfilled
  | existsQuery =>
    have hlink : ∀ w ∈ db.tuples d q.root.table q.label q.joins, holdsAll d db (q.conditions ++
        [Expr.eq (Expr.col q.label q.root.identityColumn) (Expr.col countLabel q.root.identityColumn)])
          [w ++ [(countLabel, r)]] =
        (holdsAll d db q.conditions [w] && decide (q.ident d w = d.key (r q.root.identityColumn))) := by
      intro w hw
      have hconditions : holdsAll d db q.conditions [w ++ [(countLabel, r)]] = holdsAll d db q.conditions [w] :=
        holdsAll_sees (fun e he => (hq e (List.mem_append_left _ he)).sees) (.cons (alike_outer hw _) .nil)
      have hself : [(countLabel, r)].lookup countLabel = some r := List.lookup_cons_self
      rw [← hconditions, ← holds_link hw hlabel hself hfilled]
      simp [holdsAll]
    have hitem : (Expr.col q.label q.root.identityColumn).isAggregate = false := rfl
    simp only [Expr.eval, List.headD_cons, isTrue_truth]
    rw [← eval_linked_ne_nil_iff hq hitem hlink, Bool.not_eq_true', ← Bool.not_eq_true, List.isEmpty_iff]

end Selection

/-! ## Totals -/

/-- The number of a total: of the root rows that it admits, those with an identity. -/
theorem value_countStatement_filled (root : Entity) (conditions : List Expr) :
    (countStatement root conditions).value d db =
      some (countValue ((db.rows root.table).countP fun r =>
        (r root.identityColumn).isSome && (countStatement root conditions).admits d db r)) := by
  have htuples : db.tuples d root.table countLabel [] = (db.rows root.table).map fun r => [(countLabel, r)] := by
    exact List.map_eq_flatMap.symm
  have hgroups : (countStatement root conditions).groups d db =
      [((db.rows root.table).filter ((countStatement root conditions).admits d db)).map
        fun r => [(countLabel, r)]] := by
    unfold Statement.groups pick
    show (parts true true _ ((db.tuples d root.table countLabel []).filter _)).filter (fun _ => true) = _
    rw [htuples, List.filter_map]
    rfl
  -- of the root rows that are left, those whose identity is not NULL count
  have hcells : ∀ rs : List Row, (((rs.map fun r => [(countLabel, r)]).map fun w =>
      (Expr.col countLabel root.identityColumn).eval d db [w]).filterMap id).length =
        rs.countP fun r => (r root.identityColumn).isSome := by
    intro rs
    have heval : ∀ r : Row, (Expr.col countLabel root.identityColumn).eval d db [[(countLabel, r)]] =
        r root.identityColumn := fun r => by simp [Expr.col, Expr.eval, Tuple.cell]
    rw [List.map_map, List.filterMap_map, List.length_filterMap_eq_countP]
    refine List.countP_congr fun r _ => ?_
    simp only [Function.comp_apply, id, heval]
  unfold Statement.value Statement.rows
  rw [hgroups]
  simp only [countStatement, Bool.false_eq_true, if_false, List.map_cons, List.map_nil, List.head?_cons,
    Option.bind_some, Option.join_some, Expr.eval, Function.isAggregate, if_true, Dialect.aggregate]
  rw [hcells, List.countP_filter]

theorem value_countStatement {root : Entity} (hdb : db.Keyed d root.table root.identityColumn)
    (conditions : List Expr) : (countStatement root conditions).value d db =
      some (countValue ((db.rows root.table).countP ((countStatement root conditions).admits d db))) := by
  rw [value_countStatement_filled]
  congr 2
  exact List.countP_congr fun r hr => by rw [hdb.filled r hr, Bool.true_and]

end PageQuery
