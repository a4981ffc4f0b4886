import PageQuery.Proofs.JoinLabels
import PageQuery.Proofs.ToOne
/-!
# What a criterion leaves unknown

A criterion on a path along to-one relations compares the one cell that the path leads to.  Where that is NULL a
comparison is neither true nor false, and neither is its negation, so the row is kept by none of them.  Only a criterion
that asks for NULL itself, alone or among alternatives, decides about such a row.

The negation of a criterion therefore never keeps a row that the criterion keeps, and it keeps the others as far as
their cell is not NULL or the criterion decides about NULL.  Along to-many relations a negation asks for no row that
meets the criterion, and there nothing stays unknown.
-/
namespace PageQuery

variable {d : Dialect} {db : Store}

/-! ## Three truth values -/

def Logical (c : Cell) : Prop := c = none ∨ ∃ b, c = truth b

theorem logical_truth (b : Bool) : Logical (truth b) := .inr ⟨b, rfl⟩

theorem logical_opposite (c : Cell) : Logical (opposite c) := by
  unfold opposite
  split
  · exact logical_truth _
  · exact .inl rfl

theorem logical_eitherOf (a b : Cell) : Logical (eitherOf a b) := by
  unfold eitherOf
  split <;> first | exact logical_truth _ | exact .inl rfl

theorem logical_compare (op : Comparison) (a b : Cell) : Logical (d.compare op a b) := by
  unfold Dialect.compare
  split
  · exact logical_truth _
  · exact .inl rfl

theorem logical_among (c : Cell) (cs : List Cell) : Logical (d.among c cs) := by
  unfold Dialect.among
  split
  · exact logical_truth _
  · split
    · exact logical_truth _
    · split
      · exact .inl rfl
      · exact logical_truth _

/-- The opposite is true of the other rows just if nothing is unknown. -/
theorem isTrue_opposite_iff {c : Cell} (hc : Logical c) : isTrue (opposite c) = !isTrue c ↔ c.isSome = true := by
  rcases hc with rfl | ⟨b, rfl⟩
  · simp [opposite, isTrue]
  · simp [opposite, isTrue, truth]

theorem isTrue_eq_false_of_opposite {c : Cell} (h : isTrue (opposite c) = true) : isTrue c = false := by
  unfold opposite at h
  split at h
  · simpa [isTrue, truth] using h
  · cases h

def eitherOfAll : List Cell → Cell
  | [] => truth false
  | c :: cs => cs.foldl eitherOf c

theorem eval_disjunction {es : List Expr} {e : Expr} (h : Expr.disjunction es = some e) (g : List Tuple) :
    e.eval d db g = eitherOfAll (es.map fun x => x.eval d db g) := by
  have hfold : ∀ (es : List Expr) (a : Expr), (es.foldl Expr.or a).eval d db g =
      (es.map fun x => x.eval d db g).foldl eitherOf (a.eval d db g) := by
    intro es
    induction es with
    | nil => exact fun a => rfl
    | cons x es ih =>
      intro a
      rw [List.foldl_cons, ih, List.map_cons, List.foldl_cons, Expr.eval]
  cases es with
  | nil => cases h
  | cons a es =>
    cases h
    exact hfold es a

/-! ## Predicates on a cell -/

section
variable (d : Dialect) (db : Store) (g : List Tuple)

theorem comparable_null : Comparable (fun e => e.eval d db g = none) fun e => e.eval d db g = none where
  lower := fun e he => by simp [Expr.eval, Function.isAggregate, he]
  compare := fun op e v he => by simp [Expr.eval, Dialect.compare, he]
  between := fun e v w he => by simp [Expr.eval, Dialect.compare, bothOf, eitherOf, opposite, he]
  inValues := fun e vs hvs he => by
    have hnone : (vs.map some).any (d.equal none) = false := by
      simp [Dialect.equal]
    simp [Expr.eval, Dialect.among, he, hnone, hvs]
  like := fun e pattern he => by simp [Expr.eval, he]

theorem testable_filled : Testable (fun e => (e.eval d db g).isSome = true) fun e => ∃ b, e.eval d db g = truth b where
  lower := fun e he => by simpa [Expr.eval, Function.isAggregate] using he
  compare := fun op e v he => by
    obtain ⟨w, hw⟩ := Option.isSome_iff_exists.1 he
    simp only [Expr.eval, hw]
    exact ⟨_, rfl⟩
  between := fun e v w he => by
    obtain ⟨x, hx⟩ := Option.isSome_iff_exists.1 he
    simp only [Expr.eval, hx]
    exact ⟨_, rfl⟩
  like := fun e pattern he => by
    obtain ⟨v, hv⟩ := Option.isSome_iff_exists.1 he
    simp only [Expr.eval, hv]
    exact ⟨_, rfl⟩
  among := fun e vs he => by
    obtain ⟨v, hv⟩ := Option.isSome_iff_exists.1 he
    simp only [Expr.eval, hv, Dialect.among]
    split
    · exact ⟨_, rfl⟩
    · split
      · exact ⟨_, rfl⟩
      · rw [if_neg (by simp)]
        exact ⟨_, rfl⟩
  isNull := fun e _ => by
    simp only [Expr.eval]
    exact ⟨_, rfl⟩
  not := fun e he => by
    obtain ⟨b, hb⟩ := he
    simp only [Expr.eval, hb]
    exact ⟨_, rfl⟩
  or := fun a b ha hb => by
    obtain ⟨x, hx⟩ := ha
    obtain ⟨y, hy⟩ := hb
    simp only [Expr.eval, hx, hy]
    exact ⟨_, rfl⟩

theorem testable_logical : Testable (fun _ => True) fun e => Logical (e.eval d db g) where
  lower := fun _ _ => trivial
  compare := fun op e v _ => by simp only [Expr.eval]; exact logical_compare ..
  between := fun e v w _ => by simp only [Expr.eval]; exact logical_opposite _
  like := fun e pattern _ => by
    simp only [Expr.eval]
    cases e.eval d db g with
    | none => exact .inl rfl
    | some v => exact logical_truth _
  among := fun e vs _ => by simp only [Expr.eval]; exact logical_among ..
  isNull := fun e _ => by simp only [Expr.eval]; exact logical_truth _
  not := fun e _ => by simp only [Expr.eval]; exact logical_opposite _
  or := fun a b _ _ => by simp only [Expr.eval]; exact logical_eitherOf ..

end

/-! ## Criteria on NULL -/

mutual

def Criterion.onNull (t : Term) : Criterion → Cell
  | .null => truth true
  | .negation inner => opposite (inner.onNull t)
  | .alternatives items => eitherOfAll (Criterion.onNullAll t items)
  | .value _ | .numeric _ | .enumerated _ | .boolean _ | .textMatch _ => none

def Criterion.onNullAll (t : Term) : List Criterion → List Cell
  | [] => []
  | c :: cs =>
    match (c.build t).outcome with
    | .ok _ => c.onNull t :: Criterion.onNullAll t cs
    | .error _ => Criterion.onNullAll t cs

end

mutual

/-- **What is built on NULL** says of it what the criterion does. -/
theorem Criterion.build_onNull {t : Term} (hone : t.isCollection = false) {g : List Tuple}
    (hnull : t.expr.eval d db g = none) : ∀ c : Criterion, (c.build t).Yields fun b => b.expr.eval d db g = c.onNull t
  | .null => by
    simp only [Criterion.build]
    refine Binding.yields_pure ?_
    simp only [Built.plain, Expr.eval, hnull]
    rfl
  | .negation inner => by
    simp only [Criterion.build]
    refine Binding.yields_map (Criterion.build_onNull hone hnull inner) fun b hb => ?_
    simp only [Built.plain, Expr.eval, hb, Criterion.onNull]
  | .alternatives items => by
    have hall := Criterion.buildAll_onNull hone hnull items
    simp only [Criterion.build, hone, Bool.false_eq_true, if_false]
    unfold anyBuilt
    cases hany : Expr.disjunction (Criterion.buildAll t items).2 with
    | none => exact fun b hb => by cases hb
    | some e =>
      refine Binding.yields_pure ?_
      rw [Criterion.onNull, ← hall]
      exact eval_disjunction hany g
  | .value _ | .numeric _ | .enumerated _ | .boolean _ | .textMatch _ =>
    Criterion.build_comparison (comparable_null d db g) hnull hone rfl

theorem Criterion.buildAll_onNull {t : Term} (hone : t.isCollection = false) {g : List Tuple}
    (hnull : t.expr.eval d db g = none) : ∀ cs : List Criterion,
      ((Criterion.buildAll t cs).2.map fun e => e.eval d db g) = Criterion.onNullAll t cs
  | [] => rfl
  | c :: cs => by
    have hc := Criterion.build_onNull hone hnull c
    have hcs := Criterion.buildAll_onNull hone hnull cs
    simp only [Criterion.buildAll, Criterion.onNullAll]
    cases hb : (c.build t).outcome with
    | error e => exact hcs
    | ok b => rw [List.map_cons, hc b hb, hcs]

end

/-- **A criterion decides** about a cell that is not NULL, and about NULL if it says something of it. -/
theorem Criterion.build_decides {t : Term} (hone : t.isCollection = false) {c : Criterion} {b : Built}
    (hb : (c.build t).outcome = .ok b) (d : Dialect) (db : Store) (g : List Tuple) :
    Logical (b.expr.eval d db g) ∧ ((b.expr.eval d db g).isSome = true ↔
      (t.expr.eval d db g).isSome = true ∨ (c.onNull t).isSome = true) := by
  refine ⟨Criterion.build_yields (testable_logical d db g) trivial c b hb, ?_⟩
  cases hcell : t.expr.eval d db g with
  | none =>
    rw [Criterion.build_onNull hone hcell c b hb]
    simp
  | some v =>
    obtain ⟨x, hx⟩ := Criterion.build_yields (testable_filled d db g) (by rw [hcell]; rfl) c b hb
    rw [hx]
    simp [truth]

/-! ## Criteria along to-one relations -/

section
variable {catalog : Catalog} {root : Entity} {label field : String} (hone : catalog.manyAlong root field = false)
include hone

theorem compileOnTerm_target {c : Criterion} {p : Predicate}
    (h : (compileOnTerm (Scope.new catalog root label) field c []).outcome = .ok p) :
    ∃ t b, (Scope.new catalog root label).filterTarget field =
        ((compileOnTerm (Scope.new catalog root label) field c []).scope, .ok t) ∧
      (c.build t).outcome = .ok b ∧ p = predicateOf field t b ∧ t.isCollection = false ∧
      ((Scope.new catalog root label).trace field).2 = .ok t ∧
      (compileOnTerm (Scope.new catalog root label) field c []).scope =
        (Scope.new catalog root label).addJoins ((Scope.new catalog root label).trace field).1 := by
  obtain ⟨t, b, htarget, hb, hp⟩ := compileOnTerm_ok h
  have hfound : (Scope.new catalog root label).resolveMarked membershipPath field =
      ((compileOnTerm (Scope.new catalog root label) field c []).scope, .ok t) := htarget
  obtain ⟨-, hterm⟩ := Scope.resolveMarked_toOne (s := Scope.new catalog root label) membershipPath rfl hone
  obtain ⟨hresolved, htrace, l, column, type, rfl⟩ := hterm t (by rw [hfound])
  rw [hfound] at hresolved
  exact ⟨_, b, htarget, hb, hp, rfl, htrace, congrArg Prod.fst hresolved⟩

/-- The negation of such a criterion is compiled to the opposite, over the same joins. -/
theorem compile_opposite {c : Criterion} {p : Predicate}
    (h : (compileOnTerm (Scope.new catalog root label) field c []).outcome = .ok p) :
    ∃ q, (compile (Scope.new catalog root label) field (.negation c) []).outcome = .ok q ∧ q.expr = .not p.expr ∧
      q.Plain ∧ q.selection (compile (Scope.new catalog root label) field (.negation c) []).scope =
        q.selection (compileOnTerm (Scope.new catalog root label) field c []).scope := by
  obtain ⟨t, b, -, hb, rfl, -, htrace, hscope⟩ := compileOnTerm_target hone h
  have hinner := compileOnTerm_relabel (f := inward label) (s := Scope.new catalog root label)
    (keepsBehind_inward label) field c []
  have hopened : (Scope.new catalog root label).opened.trace field = (Scope.new catalog root label).trace field :=
    (Scope.grows_opened _).trace field
  have htarget : (Scope.new catalog root label).opened.filterTarget field =
      ((Scope.new catalog root label).opened.addJoins ((Scope.new catalog root label).trace field).1, .ok t) := by
    rw [← hopened] at htrace ⊢
    exact Scope.resolveMarked_of_trace membershipPath rfl hone htrace
  obtain ⟨hnegated, hq⟩ := compileOnTerm_of_build [] htarget (build_negation hb)
  have hcompile : compile (Scope.new catalog root label) field (.negation c) [] =
      compileOnTerm (Scope.new catalog root label).opened field (.negation c) [] := by
    rw [compile_negation_toOne rfl hone, detached_new, hinner]
    simp only [Compiled.relabel, h, Except.map]
  refine ⟨_, by rw [hcompile]; exact hq, rfl, ?_, ?_⟩
  · exact (compileOnTerm_toOne (s := (Scope.new catalog root label).opened) rfl hone (.negation c) []).2 _ hq
  · have hjoins := Scope.joins_addJoins_congr (s := (Scope.new catalog root label).opened)
      (t := Scope.new catalog root label) rfl ((Scope.new catalog root label).trace field).1
    rw [hcompile, hnegated, hscope]
    simp only [Predicate.selection, Scope.joinList, hjoins, Scope.root_addJoins, Scope.label_addJoins]
    rfl

theorem selects_toOne {c : Criterion} {p : Predicate}
    (h : (compileOnTerm (Scope.new catalog root label) field c []).outcome = .ok p) {q : Predicate} (hq : q.Plain)
    (hdb : ∀ e ∈ catalog.entities, db.Identifies d e) (row : Row) :
    (q.selection (compileOnTerm (Scope.new catalog root label) field c []).scope).selects d db row =
      isTrue (q.expr.eval d db
        [(compileOnTerm (Scope.new catalog root label) field c []).scope.extended d db row]) := by
  obtain ⟨t, b, -, -, -, -, htrace, hscope⟩ := compileOnTerm_target hone h
  have hgrows := grows_compileOnTerm (Scope.new catalog root label) field c []
  have hlaid := hgrows.laid (Scope.laid_new catalog root label)
  have htoOne := (compileOnTerm_toOne (s := Scope.new catalog root label) rfl hone c []).1 rfl
  have hnodup := Scope.nodup_of_trace htrace
  rw [← hscope] at hnodup
  have hlabel := hgrows.label
  have hcatalog := hgrows.catalog
  generalize (compileOnTerm (Scope.new catalog root label) field c []).scope = s at *
  have hspan : (q.selection s).span d db row = [s.extended d db row] :=
    hlaid.joined_eq htoOne (by rw [hcatalog]; exact hdb) (by rw [hlabel]; exact hnodup) row
  have hhaving : (q.selection s).having = [] := by
    unfold Predicate.selection
    rw [hq.countTest]
    rfl
  rw [Selection.selects_of_single hhaving hspan]
  simp [Predicate.selection, holdsAll]

end

/-- **The negation of a criterion along to-one relations keeps what the criterion does not**, as far as the cell
compared is not NULL or the criterion decides about NULL; the other root rows are kept by neither. -/
theorem negation_draws_decided {catalog : Catalog} {root : Entity} (caps : Capabilities) (wantCount : Bool)
    {recipe : Option Recipe} (hwhole : ∀ x ∈ recipe, x = Recipe.wholeEntity) {field : String} {c : Criterion}
    {p : Predicate} (hplain : ∀ inner, c ≠ .negation inner) (hone : catalog.manyAlong root field = false)
    (hcompiles : (compile (Scope.new catalog root dataLabel) field c []).outcome = .ok p) :
    ∃ yes no t s, (PagePlan.build catalog root caps (Request.only field c) wantCount recipe false).2 = .ok yes ∧
      (PagePlan.build catalog root caps (Request.only field (.negation c)) wantCount recipe false).2 = .ok no ∧
      (Scope.new catalog root dataLabel).filterTarget field = (s, .ok t) ∧
      ∀ (d : Dialect) (db : Store), (∀ e ∈ root :: catalog.entities, db.Identifies d e) → ∀ row ∈ db.rows root.table,
        (no.data.statement.draws d db root.identityColumn (row root.identityColumn) = true →
          yes.data.statement.draws d db root.identityColumn (row root.identityColumn) = false) ∧
        (no.data.statement.draws d db root.identityColumn (row root.identityColumn) =
            !yes.data.statement.draws d db root.identityColumn (row root.identityColumn) ↔
          (t.expr.eval d db [s.extended d db row]).isSome = true ∨ (c.onNull t).isSome = true) := by
  have hterm : (compileOnTerm (Scope.new catalog root dataLabel) field c []).outcome = .ok p := by
    rw [← compile_plain hplain]
    exact hcompiles
  obtain ⟨t, b, htarget, hb, hp, hcollection, -, -⟩ := compileOnTerm_target hone hterm
  obtain ⟨q, hnegated, hopposite, hq, hsame⟩ := compile_opposite hone hterm
  have hplainRow := (compileOnTerm_toOne (s := Scope.new catalog root dataLabel) rfl hone c []).2 p hterm
  obtain ⟨yes, hyes⟩ := exists_build (prepare_only hwhole catalog root dataLabel hcompiles) rfl caps wantCount
  obtain ⟨no, hno⟩ := exists_build (prepare_only hwhole catalog root dataLabel hnegated) rfl caps wantCount
  refine ⟨yes, no, t, _, hyes, hno, htarget, fun d db hdb row hrow => ?_⟩
  have hroot := hdb root List.mem_cons_self
  have hcatalog : ∀ e ∈ catalog.entities, db.Identifies d e := fun e he => hdb e (List.mem_cons_of_mem root he)
  obtain ⟨hlogical, hdecides⟩ := Criterion.build_decides hcollection hb d db
    [(compileOnTerm (Scope.new catalog root dataLabel) field c []).scope.extended d db row]
  have hkeeps : yes.data.statement.draws d db root.identityColumn (row root.identityColumn) =
      isTrue (b.expr.eval d db
        [(compileOnTerm (Scope.new catalog root dataLabel) field c []).scope.extended d db row]) := by
    rw [draws_only hwhole hcompiles hyes hroot hrow, selection_ofPredicate hplainRow.level, compile_plain hplain,
      selects_toOne hone hterm hplainRow hcatalog, hp]
    rfl
  have hleaves : no.data.statement.draws d db root.identityColumn (row root.identityColumn) =
      isTrue (opposite (b.expr.eval d db
        [(compileOnTerm (Scope.new catalog root dataLabel) field c []).scope.extended d db row])) := by
    rw [draws_only hwhole hnegated hno hroot hrow, selection_ofPredicate hq.level, hsame,
      selects_toOne hone hterm hq hcatalog, hopposite, hp]
    simp only [Expr.eval, predicateOf]
  rw [hkeeps, hleaves]
  exact ⟨isTrue_eq_false_of_opposite, (isTrue_opposite_iff hlogical).trans hdecides⟩

open Sample in
/-- The negation of a site in Oslo keeps the workers of another site, and those without a site are kept by neither. -/
theorem oslo_decided :
    ∃ yes no t s,
      (PagePlan.build firm worker Backend.postgres.capabilities
        (Request.only "team.site.city" (.value (.text "Oslo"))) true (some .wholeEntity) false).2 = .ok yes ∧
      (PagePlan.build firm worker Backend.postgres.capabilities
        (Request.only "team.site.city" (.negation (.value (.text "Oslo")))) true (some .wholeEntity) false).2 = .ok no ∧
      (Scope.new firm worker dataLabel).filterTarget "team.site.city" = (s, .ok t) ∧
      (∀ e ∈ worker :: firm.entities, firmStore.Identifies .plain e) ∧
      ∀ row ∈ firmStore.rows "workers",
        (no.data.statement.draws .plain firmStore "id" (row "id") = true →
          yes.data.statement.draws .plain firmStore "id" (row "id") = false) ∧
        (no.data.statement.draws .plain firmStore "id" (row "id") =
            !yes.data.statement.draws .plain firmStore "id" (row "id") ↔
          (t.expr.eval .plain firmStore [s.extended .plain firmStore row]).isSome = true ∨
            ((Criterion.value (.text "Oslo")).onNull t).isSome = true) := by
  obtain ⟨p, hp⟩ := exists_ok_of_isOk
    (x := (compile (Scope.new firm worker dataLabel) "team.site.city" (.value (.text "Oslo")) []).outcome)
    (by decide +kernel)
  have hwhole : ∀ x ∈ some Recipe.wholeEntity, x = Recipe.wholeEntity := fun x hx => by
    cases hx
    rfl
  have hplain : ∀ inner, Criterion.value (.text "Oslo") ≠ .negation inner := fun inner h => by cases h
  have hone : firm.manyAlong worker "team.site.city" = false := by decide +kernel
  have hdb : ∀ e ∈ worker :: firm.entities, firmStore.Identifies .plain e := by decide +kernel
  obtain ⟨yes, no, t, s, hyes, hno, htarget, hdraws⟩ :=
    negation_draws_decided Backend.postgres.capabilities true hwhole hplain hone hp
  exact ⟨yes, no, t, s, hyes, hno, htarget, hdb, hdraws .plain firmStore hdb⟩

open Sample in
/-- The worker without a name is neither called Ada nor not. -/
theorem nameless_neither :
    (∀ e ∈ worker :: firm.entities, firmStore.Identifies .plain e) ∧
    ∃ row ∈ firmStore.rows "workers", ∃ yes no,
      (PagePlan.build firm worker Backend.postgres.capabilities
        (Request.only "name" (.value (.text "Ada"))) false none false).2 = .ok yes ∧
      (PagePlan.build firm worker Backend.postgres.capabilities
        (Request.only "name" (.negation (.value (.text "Ada")))) false none false).2 = .ok no ∧
      yes.data.statement.draws .plain firmStore "id" (row "id") = false ∧
      no.data.statement.draws .plain firmStore "id" (row "id") = false := by
  obtain ⟨yes, hyes, hyes'⟩ := exists_ok
    (P := fun plan => plan.data.statement.draws .plain firmStore "id" (some (.int64 3)) = false)
    (x := (PagePlan.build firm worker Backend.postgres.capabilities
      (Request.only "name" (.value (.text "Ada"))) false none false).2) (by decide +kernel)
  obtain ⟨no, hno, hno'⟩ := exists_ok
    (P := fun plan => plan.data.statement.draws .plain firmStore "id" (some (.int64 3)) = false)
    (x := (PagePlan.build firm worker Backend.postgres.capabilities
      (Request.only "name" (.negation (.value (.text "Ada")))) false none false).2) (by decide +kernel)
  refine ⟨by decide +kernel, row [("id", .int64 3), ("team_id", .int64 11)], ?_, yes, no, hyes, hno, hyes', hno'⟩
  exact List.mem_cons_of_mem _ (List.mem_cons_of_mem _ List.mem_cons_self)

end PageQuery
