import PageQuery.Proofs.Crossing
import PageQuery.Proofs.OneRow
/-!
# The negation of a criterion selects the other root rows

On a path with many values a criterion keeps the root rows that have some joined row that satisfies it, and its negation
keeps those that have none.  The one tests the joined rows of the statement itself, the other those of a subquery about
the same root row under labels of its own; both are one selection, so the rows of the one request are the complement of
the rows of the other.
-/
namespace PageQuery

variable {d : Dialect} {db : Store}

/-! ## Requests of one criterion -/

def Request.only (field : String) (c : Criterion) : Request := { Request.all with required := [⟨field, c⟩] }

def Prepared.ofPredicate (s : Scope) (p : Predicate) (parameters : List Parameter) : Prepared :=
  ⟨s, none, (Restriction.ofConditions []).route [p] [] s.identity.expr, parameters⟩

theorem prepare_wholeEntity {recipe : Option Recipe} (hwhole : ∀ x ∈ recipe, x = Recipe.wholeEntity) (catalog : Catalog)
    (root : Entity) (r : Request) (label : String) :
    (prepare catalog root r recipe label).2 = (restrict (Scope.new catalog root label) r none []).2 := by
  cases recipe with
  | none => rfl
  | some x =>
    rw [hwhole x rfl]
    rfl

theorem prepare_only {recipe : Option Recipe} (hwhole : ∀ x ∈ recipe, x = Recipe.wholeEntity) (catalog : Catalog)
    (root : Entity) {field : String} {c : Criterion} (label : String) {p : Predicate}
    (h : (compile (Scope.new catalog root label) field c []).outcome = .ok p) :
    (prepare catalog root (Request.only field c) recipe label).2 =
      .ok (Prepared.ofPredicate (compile (Scope.new catalog root label) field c []).scope p
        (compile (Scope.new catalog root label) field c []).parameters) := by
  rw [prepare_wholeEntity hwhole]
  simp only [restrict, Request.only, Request.all, compileAll, h, Except.map]
  rfl

theorem orderTerms_of_unordered {r : Request} (hr : r.ordering = []) (s : Scope) : orderTerms s r = (s, .ok []) := by
  unfold orderTerms
  rw [hr]
  split <;> rfl

theorem exists_build {catalog : Catalog} {root : Entity} {r : Request} {recipe : Option Recipe} {p : Prepared}
    (hp : (prepare catalog root r recipe dataLabel).2 = .ok p) (hr : r.ordering = []) (caps : Capabilities)
    (wantCount : Bool) : ∃ plan, (PagePlan.build catalog root caps r wantCount recipe false).2 = .ok plan := by
  have hdata : ∃ data, dataPlan r p = .ok data := by
    unfold dataPlan
    simp only [orderTerms_of_unordered hr]
    exact ⟨_, rfl⟩
  obtain ⟨data, hdata⟩ := hdata
  obtain ⟨plan, hplan, -⟩ := exists_build_of_data hp hdata caps wantCount (Bool.false_and p.projection.isNone)
  exact ⟨plan, hplan⟩

/-! ## Rows in no order -/

theorem DataParts.draws_of_unordered {r : Request} {p : Prepared} {data : Plan} {s : Scope}
    (hparts : DataParts r p data s []) (hprojection : p.projection = none) (hclosed : p.Closed) {catalog : Catalog}
    {root : Entity} (hunder : p.Under catalog root dataLabel) (hdb : db.Identifies d root) {row : Row}
    (hrow : row ∈ db.rows root.table) :
    data.statement.draws d db root.identityColumn (row root.identityColumn) = p.selection.selects d db row := by
  rw [Bool.eq_iff_iff, hparts.draws_iff hunder hdb hrow, hparts.selects_iff hunder hclosed hdb hrow]
  refine exists_part_iff fun x hx y hy => ?_
  by_cases hgrouped : data.statement.groupBy = []
  · rw [hgrouped]
    rfl
  · obtain ⟨more, hreads⟩ := hparts.reads hunder
    have hroot : (p.selection.join more).root = root := hunder.root
    have hlabel : s.label = (p.selection.join more).label := hparts.grows.label
    have hlists := hparts.lists_groupBy hprojection hunder (fun o ho => (List.not_mem_nil ho).elim) hgrouped
    rw [hlabel] at hlists
    rw [← hroot] at hdb hrow hx hy
    rw [hreads.keptOf_eq hdb hrow] at hx hy
    have hlookup : y.lookup (p.selection.join more).label = x.lookup (p.selection.join more).label := by
      rw [Selection.lookup_of_mem_span (List.mem_filter.1 hx).1, Selection.lookup_of_mem_span (List.mem_filter.1 hy).1]
    exact (hlists.groupKey_iff hlookup).2 fun o ho => (List.not_mem_nil ho).elim

theorem draws_of_unordered {catalog : Catalog} {root : Entity} {caps : Capabilities} {r : Request} {wantCount : Bool}
    {recipe : Option Recipe} {p : Prepared} (hr : r.ordering = [])
    (hprepared : (prepare catalog root r recipe dataLabel).2 = .ok p) (hprojection : p.projection = none)
    {plan : PagePlan} (hplan : (PagePlan.build catalog root caps r wantCount recipe false).2 = .ok plan)
    (hdb : db.Identifies d root) {row : Row} (hrow : row ∈ db.rows root.table) :
    plan.data.statement.draws d db root.identityColumn (row root.identityColumn) = p.selection.selects d db row := by
  obtain ⟨p', hprepare, hdata, -⟩ := build_ok hplan
  rw [hprepared] at hprepare
  cases hprepare
  obtain ⟨s, orders, hparts⟩ := dataPlan_ok hdata
  have horders : orders = [] := by
    have hordering := hparts.ordering
    rw [orderTerms_of_unordered hr] at hordering
    cases hordering
    rfl
  subst horders
  exact hparts.draws_of_unordered hprojection (closed_prepare hprepared) (under_prepare hprepared) hdb hrow

theorem draws_only {catalog : Catalog} {root : Entity} {caps : Capabilities} {wantCount : Bool} {recipe : Option Recipe}
    (hwhole : ∀ x ∈ recipe, x = Recipe.wholeEntity) {field : String} {c : Criterion} {p : Predicate}
    (h : (compile (Scope.new catalog root dataLabel) field c []).outcome = .ok p) {plan : PagePlan}
    (hplan : (PagePlan.build catalog root caps (Request.only field c) wantCount recipe false).2 = .ok plan)
    (hdb : db.Identifies d root) {row : Row} (hrow : row ∈ db.rows root.table) :
    plan.data.statement.draws d db root.identityColumn (row root.identityColumn) =
      (Prepared.ofPredicate (compile (Scope.new catalog root dataLabel) field c []).scope p
        (compile (Scope.new catalog root dataLabel) field c []).parameters).selection.selects d db row :=
  draws_of_unordered rfl (prepare_only hwhole catalog root dataLabel h) rfl hplan hdb hrow

/-! ## The selection of a predicate -/

def Predicate.selection (s : Scope) (p : Predicate) : Selection :=
  ⟨s.root, s.label, s.joinList, [p.expr], p.countTest.toList⟩

theorem selection_ofPredicate {s : Scope} {p : Predicate} (hlevel : p.level = .row) (parameters : List Parameter) :
    (Prepared.ofPredicate s p parameters).selection = p.selection s := by
  simp [Prepared.selection, Prepared.ofPredicate, Predicate.selection, Restriction.conditions_route,
    Restriction.having_route, Restriction.addPredicate, Restriction.addOptional, Restriction.ofConditions, hlevel,
    Expr.disjunction]

theorem selection_relabel (f : String → String) (s : Scope) (p : Predicate) :
    (p.relabel f).selection (s.relabel f) = (p.selection s).relabel f := by
  unfold Predicate.selection Selection.relabel
  rw [Scope.joinList_relabel, countTest_relabel]
  cases p.countTest <;> rfl

theorem Predicate.Within.closed {s : Scope} {p : Predicate} (hp : p.Within s.labels fun _ => False) :
    (p.selection s).Closed d db := by
  intro e he
  have hwithin : e.Within s.labels fun _ => False := by
    rcases List.mem_cons.1 he with rfl | he
    · exact hp.expr
    · exact hp.countTest e (Option.mem_toList.1 he)
  exact hwithin.steady fun _ hq => False.elim hq

theorem Selection.selects_of_single {q : Selection} (hhaving : q.having = []) {r : Row} {w : Tuple}
    (hspan : q.span d db r = [w]) : q.selects d db r = holdsAll d db q.conditions [w] := by
  have hfree : ∀ g, holdsAll d db [] g = true := fun _ => rfl
  unfold selects kept
  rw [hspan, hhaving, hfree, Bool.and_true]
  cases hholds : holdsAll d db q.conditions [w] <;> simp [hholds]

theorem Selection.selects_of_bare {q : Selection} (hjoins : q.joins = []) (hhaving : q.having = []) (r : Row) :
    q.selects d db r = holdsAll d db q.conditions [[(q.label, r)]] := by
  refine selects_of_single hhaving ?_
  unfold span
  rw [hjoins]
  rfl

/-- **No row meets a predicate just if the root row is not selected by it.** -/
theorem isTrue_nonexistence {outer inner : Scope} {p : Predicate} (hp : p.Within inner.labels fun _ => False)
    (hroot : inner.root = outer.root) (hlabel : ¬inner.labels outer.label) (hdb : db.Identifies d outer.root)
    {row : Row} (hrow : row ∈ db.rows outer.root.table) :
    isTrue ((nonexistence outer inner p).eval d db [[(outer.label, row)]]) = !(p.selection inner).selects d db row := by
  have hnonexistence : nonexistence outer inner p = .not (.nonempty (.select (.value (.int32 1))
      (p.selection inner).root.table (p.selection inner).label (p.selection inner).joins
      (Expr.eq (Expr.col (p.selection inner).label (p.selection inner).root.identityColumn)
        (Expr.col outer.label (p.selection inner).root.identityColumn) :: (p.selection inner).conditions)
      (p.selection inner).groupBy (p.selection inner).having)) := by
    have hidentity : outer.identity.expr = Expr.col outer.label inner.root.identityColumn := by
      rw [hroot]
      rfl
    unfold nonexistence
    rw [hidentity]
    cases hcount : p.countTest <;>
      simp [Predicate.selection, Selection.groupBy, hcount, Scope.correlated, Scope.identity]
  rw [← hroot] at hdb hrow
  have hlink : ∀ w ∈ db.tuples d (p.selection inner).root.table (p.selection inner).label (p.selection inner).joins,
      holdsAll d db (Expr.eq (Expr.col (p.selection inner).label (p.selection inner).root.identityColumn)
        (Expr.col outer.label (p.selection inner).root.identityColumn) :: (p.selection inner).conditions)
          [w ++ [(outer.label, row)]] =
        (holdsAll d db (p.selection inner).conditions [w] &&
          decide ((p.selection inner).ident d w = d.key (row (p.selection inner).root.identityColumn))) := by
    intro w hw
    have hconditions : holdsAll d db (p.selection inner).conditions [w ++ [(outer.label, row)]] =
        holdsAll d db (p.selection inner).conditions [w] :=
      holdsAll_sees (fun e he => (hp.closed e (List.mem_append_left _ he)).sees)
        (.cons (Selection.alike_outer hw [(outer.label, row)]) .nil)
    have hself : [(outer.label, row)].lookup outer.label = some row := List.lookup_cons_self
    rw [← hconditions, ← Selection.holds_link hw hlabel hself (hdb.filled row hrow), Bool.and_comm]
    rfl
  have hitem : (Expr.value (.int32 1)).isAggregate = false := rfl
  have hlinked := (Selection.eval_linked_ne_nil_iff (q := p.selection inner) hp.closed hitem hlink).trans
    (Selection.shows_iff (q := p.selection inner) hdb hrow)
  rw [hnonexistence]
  simp only [Expr.eval, List.headD_cons, opposite, truth, isTrue, Bool.not_not]
  rw [Bool.eq_iff_iff, List.isEmpty_iff, Bool.not_eq_true', ← Bool.not_eq_true, ← hlinked]
  exact not_not.symm

/-! ## The negation -/

/-- The labels of the first subquery about a root row. -/
def inward (label : String) : String → String := rebase label (label ++ "_" ++ ("sub" ++ toString 0))

theorem inward_self (label : String) : inward label label = label ++ "_" ++ ("sub" ++ toString 0) := rebase_self _ _

theorem inward_injective (label : String) : Function.Injective (inward label) := rebase_injective label _

theorem keepsBehind_inward (label : String) : KeepsBehind (inward label) label := keepsBehind_rebase _ _

theorem detached_new (catalog : Catalog) (root : Entity) (label : String) :
    (Scope.new catalog root label).detached = (Scope.new catalog root label).relabel (inward label) := by
  rw [← Scope.new_relabel, inward_self]
  show Scope.new catalog root (label ++ "_sub" ++ toString 0) = _
  rw [String.append_assoc, KeepsBehind.sub_eq, ← String.append_assoc]

section
variable {catalog : Catalog} {root : Entity} {label field : String} {c : Criterion} {p : Predicate}

theorem compileOnTerm_toMany (h : (compileOnTerm (Scope.new catalog root label) field c []).outcome = .ok p)
    (hmany : catalog.manyAlong root field = true) : p.level = .row ∧
      (compileOnTerm (Scope.new catalog root label) field c []).scope.hasToManyJoins = true := by
  obtain ⟨t, b, htarget, hb, rfl⟩ := compileOnTerm_ok h
  have hok : ((Scope.new catalog root label).filterTarget field).2 = .ok t := by rw [htarget]
  have htoMany := Scope.filterTarget_toMany (s := Scope.new catalog root label) rfl rfl hok hmany
  have hplain : t.isAggregate = false := by
    obtain ⟨e, type, _ | _ | _ | _⟩ := t
    · rfl
    · rfl
    · cases (Scope.resolveMarked_column (s := Scope.new catalog root label) rfl hok).1
    · cases (Scope.resolveMarked_column (s := Scope.new catalog root label) rfl hok).1
  rw [htarget] at htoMany
  refine ⟨?_, htoMany⟩
  unfold predicateOf
  rw [hplain]
  rfl

/-- The negation of such a criterion asks for no row of a subquery that meets its predicate. -/
theorem compile_negation (h : (compileOnTerm (Scope.new catalog root label) field c []).outcome = .ok p)
    (hmany : catalog.manyAlong root field = true) :
    (compile (Scope.new catalog root label) field (.negation c) []).scope = (Scope.new catalog root label).opened ∧
    (compile (Scope.new catalog root label) field (.negation c) []).outcome =
      .ok ⟨field, nonexistence (Scope.new catalog root label)
        ((compileOnTerm (Scope.new catalog root label) field c []).scope.relabel (inward label))
        (p.relabel (inward label)), .row, none⟩ := by
  have htoMany : ((compileOnTerm (Scope.new catalog root label) field c []).scope.relabel
      (inward label)).hasToManyJoins = true := by
    rw [Scope.hasToManyJoins_relabel]
    exact (compileOnTerm_toMany h hmany).2
  have hfield : ((Scope.new catalog root label).field? field).isSome = false := rfl
  have hinner := compileOnTerm_relabel (f := inward label) (s := Scope.new catalog root label)
    (keepsBehind_inward label) field c []
  unfold compile
  simp only [hfield, detached_new, hinner, Compiled.relabel, h, Except.map, htoMany, Bool.false_eq_true, if_false,
    if_true, and_self]

theorem within_inside
    (h : (compileOnTerm (Scope.new catalog root label) field c []).outcome = .ok p) :
    ((p.relabel (inward label)).Within
        ((compileOnTerm (Scope.new catalog root label) field c []).scope.relabel (inward label)).labels
        fun _ => False) ∧
      ¬((compileOnTerm (Scope.new catalog root label) field c []).scope.relabel (inward label)).labels label := by
  have hdetached : (Scope.new catalog root label).detached.Closed fun _ => False := Scope.closed_new _ _ _
  have hwithin := within_compileOnTerm hdetached field c []
  have hlaid := (grows_compileOnTerm (Scope.new catalog root label).detached field c []).laid hdetached.laid
  rw [detached_new, compileOnTerm_relabel (keepsBehind_inward label)] at hwithin hlaid
  have hgrows := grows_compileOnTerm (Scope.new catalog root label) field c []
  have hlabel : ((compileOnTerm (Scope.new catalog root label) field c []).scope.relabel (inward label)).label =
      label ++ "_" ++ ("sub" ++ toString 0) := by
    show inward label (compileOnTerm (Scope.new catalog root label) field c []).scope.label = _
    rw [hgrows.label]
    exact inward_self label
  refine ⟨hwithin _ ?_, hlaid.not_labels ?_ ?_⟩
  · simp only [Compiled.relabel, h, Except.map]
  · simp only [Compiled.relabel, hlabel]
    exact (behind_ne label _).symm
  · simp only [Compiled.relabel, hlabel, String.length_append]
    omega

theorem isTrue_negation {d : Dialect} {db : Store}
    (h : (compileOnTerm (Scope.new catalog root label) field c []).outcome = .ok p) (hdb : db.Identifies d root)
    {row : Row} (hrow : row ∈ db.rows root.table) :
    isTrue ((nonexistence (Scope.new catalog root label)
      ((compileOnTerm (Scope.new catalog root label) field c []).scope.relabel (inward label))
      (p.relabel (inward label))).eval d db [[(label, row)]]) =
        !(p.selection (compileOnTerm (Scope.new catalog root label) field c []).scope).selects d db row := by
  obtain ⟨hwithin, hhidden⟩ := within_inside h
  have hgrows := grows_compileOnTerm (Scope.new catalog root label) field c []
  have hnone := @isTrue_nonexistence d db (Scope.new catalog root label) _ _ hwithin hgrows.root hhidden hdb row hrow
  rw [selection_relabel, Selection.selects_relabel (inward_injective label)] at hnone
  exact hnone

end

/-- **The negation of a criterion on a path with many values selects the other root rows.** -/
theorem negation_draws_complement {catalog : Catalog} {root : Entity} (caps : Capabilities) (wantCount : Bool)
    {recipe : Option Recipe} (hwhole : ∀ x ∈ recipe, x = Recipe.wholeEntity) {field : String} {c : Criterion}
    {p : Predicate} (hplain : ∀ inner, c ≠ .negation inner) (hmany : catalog.manyAlong root field = true)
    (hcompiles : (compile (Scope.new catalog root dataLabel) field c []).outcome = .ok p) :
    ∃ yes no, (PagePlan.build catalog root caps (Request.only field c) wantCount recipe false).2 = .ok yes ∧
      (PagePlan.build catalog root caps (Request.only field (.negation c)) wantCount recipe false).2 = .ok no ∧
      ∀ (d : Dialect) (db : Store), db.Identifies d root → ∀ row ∈ db.rows root.table,
        no.data.statement.draws d db root.identityColumn (row root.identityColumn) =
          !yes.data.statement.draws d db root.identityColumn (row root.identityColumn) := by
  have hterm : (compileOnTerm (Scope.new catalog root dataLabel) field c []).outcome = .ok p := by
    rw [← compile_plain hplain]
    exact hcompiles
  obtain ⟨hscope, hnegated⟩ := compile_negation hterm hmany
  obtain ⟨yes, hyes⟩ := exists_build (prepare_only hwhole catalog root dataLabel hcompiles) rfl caps wantCount
  obtain ⟨no, hno⟩ := exists_build (prepare_only hwhole catalog root dataLabel hnegated) rfl caps wantCount
  refine ⟨yes, no, hyes, hno, fun d db hdb row hrow => ?_⟩
  rw [draws_only hwhole hcompiles hyes hdb hrow, draws_only hwhole hnegated hno hdb hrow, compile_plain hplain, hscope,
    selection_ofPredicate (compileOnTerm_toMany hterm hmany).1, selection_ofPredicate rfl]
  rw [Selection.selects_of_bare rfl rfl, ← isTrue_negation hterm hdb hrow]
  simp [Predicate.selection, holdsAll]
  rfl

open Sample in
/-- The persons without both items are those that are no shoppers. -/
theorem shoppers_complement :
    ∃ yes no,
      (PagePlan.build catalog person Backend.postgres.capabilities (Request.only "orders.items" bothItems) true
        (some .wholeEntity) false).2 = .ok yes ∧
      (PagePlan.build catalog person Backend.postgres.capabilities
        (Request.only "orders.items" (.negation bothItems)) true (some .wholeEntity) false).2 = .ok no ∧
      ∀ row ∈ store.rows "persons", no.data.statement.draws .plain store "id" (row "id") =
        !yes.data.statement.draws .plain store "id" (row "id") := by
  obtain ⟨p, hp, -⟩ := exists_ok (P := fun _ => True)
    (x := (compile (Scope.new catalog person dataLabel) "orders.items" bothItems []).outcome) (by decide +kernel)
  have hwhole : ∀ x ∈ some Recipe.wholeEntity, x = Recipe.wholeEntity := fun x hx => by
    cases hx
    rfl
  have hplain : ∀ inner, bothItems ≠ .negation inner := fun inner h => by cases h
  have hmany : catalog.manyAlong person "orders.items" = true := by decide +kernel
  obtain ⟨yes, no, hyes, hno, hdraws⟩ :=
    negation_draws_complement Backend.postgres.capabilities true hwhole hplain hmany hp
  exact ⟨yes, no, hyes, hno, hdraws .plain store (by decide +kernel)⟩

end PageQuery
