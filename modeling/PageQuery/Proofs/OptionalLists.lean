import PageQuery.Proofs.Dropped
import PageQuery.Proofs.Interplay
/-!
# A list and its negation, both optional

A required list on a collection counts the values that the joined rows of a root row show, and the negation of a list
counts them in its subquery.  An optional list does not count: it keeps every root row that holds one of its values,
while the negation, optional or not, keeps those that lack one of them.  Between them they keep every root row; those
that hold some of the values and lack others are kept by both.
-/
namespace PageQuery

variable {d : Dialect} {db : Store}

/-! ## Requests of one optional criterion -/

def Request.preferring (ordering : List Ordering) (field : String) (c : Criterion) : Request :=
  { Request.all with ordering := ordering, optional := [⟨field, c⟩] }

/-- The paths that a request sorts by mean something at its root. -/
def Request.Sorts (catalog : Catalog) (root : Entity) (r : Request) : Prop :=
  (orderTerms (Scope.new catalog root dataLabel) r).2.isOk = true

instance (catalog : Catalog) (root : Entity) (r : Request) : Decidable (r.Sorts catalog root) :=
  inferInstanceAs (Decidable ((orderTerms (Scope.new catalog root dataLabel) r).2.isOk = true))

section
variable {catalog : Catalog} {root : Entity} {r : Request} {recipe : Option Recipe} {p : Prepared}
  (hprepared : (prepare catalog root r recipe dataLabel).2 = .ok p)
include hprepared

theorem exists_build_of_sorts (hfields : p.scope.fields = []) (hsorts : r.Sorts catalog root) (caps : Capabilities)
    (wantCount : Bool) : ∃ plan, (PagePlan.build catalog root caps r wantCount recipe false).2 = .ok plan := by
  have hunder := under_prepare hprepared
  have hbase : p.scope.base = (Scope.new catalog root dataLabel).base :=
    Scope.base_inj.2 ⟨hunder.catalog, hunder.root, hunder.label⟩
  have hsame : (orderTerms p.scope r).2 = (orderTerms (Scope.new catalog root dataLabel) r).2 :=
    (orderTerms_congr hbase hfields rfl r).1
  obtain ⟨orders, horders⟩ := exists_ok_of_isOk hsorts
  have hdata : ∃ data, dataPlan r p = .ok data := by
    unfold dataPlan
    rcases hterms : orderTerms p.scope r with ⟨s, e | os⟩
    · rw [hterms, horders] at hsame
      cases hsame
    · exact ⟨_, rfl⟩
  obtain ⟨data, hdata⟩ := hdata
  obtain ⟨plan, hplan, -⟩ := exists_build_of_data hprepared hdata caps wantCount (Bool.false_and p.projection.isNone)
  exact ⟨plan, hplan⟩

theorem draws_of_ungrouped (hhaving : p.restriction.having = []) {caps : Capabilities} {wantCount : Bool}
    {requireProjection : Bool} {plan : PagePlan}
    (hplan : (PagePlan.build catalog root caps r wantCount recipe requireProjection).2 = .ok plan)
    (hdb : db.Identifies d root) {row : Row} (hrow : row ∈ db.rows root.table) :
    plan.data.statement.draws d db root.identityColumn (row root.identityColumn) = p.selection.selects d db row := by
  obtain ⟨p', hprepare, hdata, -⟩ := build_ok hplan
  rw [hprepared] at hprepare
  cases hprepare
  obtain ⟨s, orders, hparts⟩ := dataPlan_ok hdata
  have hfree : ∀ g, holdsAll d db plan.data.statement.having g = true := fun g => by
    rw [hparts.having, hhaving]
    rfl
  have hunder := under_prepare hprepared
  rw [Bool.eq_iff_iff, hparts.draws_iff hunder hdb hrow,
    hparts.selects_iff hunder (closed_prepare hprepared) hdb hrow]
  simp only [hfree, and_true]
  exact ⟨fun ⟨x, hx⟩ => List.ne_nil_of_mem hx, List.exists_mem_of_ne_nil _⟩

end

/-- The root rows of which some joined row meets a predicate, whatever count that asks for. -/
def Predicate.alternative (s : Scope) (p : Predicate) : Selection := ⟨s.root, s.label, s.joinList, [p.expr], []⟩

/-- **One optional criterion of rows** draws the root rows of which some joined row meets it. -/
theorem preferring_draws {catalog : Catalog} {root : Entity} (caps : Capabilities) (wantCount : Bool)
    {recipe : Option Recipe} (hwhole : ∀ x ∈ recipe, x = Recipe.wholeEntity) {ordering : List Ordering} {field : String}
    {c : Criterion} (hsorts : (Request.preferring ordering field c).Sorts catalog root) {p : Predicate}
    (hlevel : p.level = .row) (h : (compile (Scope.new catalog root dataLabel) field c []).outcome = .ok p) :
    ∃ plan,
      (PagePlan.build catalog root caps (.preferring ordering field c) wantCount recipe false).2 = .ok plan ∧
      ∀ (d : Dialect) (db : Store), db.Identifies d root → ∀ row ∈ db.rows root.table,
        plan.data.statement.draws d db root.identityColumn (row root.identityColumn) =
          (p.alternative (compile (Scope.new catalog root dataLabel) field c []).scope).selects d db row := by
  have hprepare : ∃ q, (prepare catalog root (.preferring ordering field c) recipe dataLabel).2 = .ok q ∧
      q.selection = p.alternative (compile (Scope.new catalog root dataLabel) field c []).scope := by
    rw [prepare_wholeEntity hwhole]
    simp only [restrict, Request.preferring, Request.all, compileAll, h, Except.map]
    refine ⟨_, rfl, ?_⟩
    simp [Prepared.selection, Predicate.alternative, Restriction.conditions_route, Restriction.having_route,
      Restriction.addOptional, Restriction.ofConditions, hlevel, Expr.disjunction]
  obtain ⟨q, hq, hselection⟩ := hprepare
  have hfields : q.scope.fields = [] := (prepare_whole (fun x hx => by rw [hwhole x hx]; rfl) hq).2
  obtain ⟨plan, hplan⟩ := exists_build_of_sorts hq hfields hsorts caps wantCount
  refine ⟨plan, hplan, fun d db hdb row hrow => ?_⟩
  rw [← hselection]
  exact draws_of_ungrouped hq (congrArg Selection.having hselection) hplan hdb hrow

/-! ## One list -/

theorem Scope.label_inj_of_trace {catalog : Catalog} {root : Entity} {label path : String} {t : Term}
    (h : ((Scope.new catalog root label).trace path).2 = .ok t) : ∀ j ∈ ((Scope.new catalog root label).trace path).1,
      ∀ k ∈ ((Scope.new catalog root label).trace path).1, j.join.label = k.join.label → j = k := by
  have hnodup := (List.nodup_cons.1 (Scope.nodup_of_trace h)).2
  unfold joinList at hnodup
  rw [joins_addJoins (s := Scope.new catalog root label) (trace_keys h), List.map_map] at hnodup
  exact fun j hj k hk => List.inj_on_of_nodup_map hnodup hj hk

theorem Catalog.manyAmong_of_tableAlong {c : Catalog} {v : ValueTable} : ∀ {names : List String} {e : Entity},
    c.tableAlong? e names = some v → c.manyAmong e names = true
  | [], _, h => by cases h
  | name :: rest, e, h => by
    unfold tableAlong? at h
    unfold manyAmong
    cases ha : e.lookup? name with
    | none =>
      rw [ha] at h
      cases h
    | some a =>
      rw [ha] at h
      simp only at h ⊢
      rw [Bool.or_eq_true]
      split at h
      · exact .inl (isCollection_of_valueTable? h)
      · obtain ⟨e', he', hv⟩ := Option.bind_eq_some_iff.1 h
        rw [he']
        exact .inr (manyAmong_of_tableAlong hv)

namespace Filter
variable {catalog : Catalog} {root : Entity} {f : Filter}

theorem AsksMembership.filterTarget_ok (h : f.AsksMembership catalog root) :
    ∃ t, ((Scope.new catalog root dataLabel).filterTarget f.path).2 = .ok t := by
  obtain ⟨t, b, htarget, -, -⟩ := compileOnTerm_ok h.compile_base.2.2
  exact ⟨t, by rw [htarget]⟩

theorem AsksMembership.manyAlong (h : f.AsksMembership catalog root) : catalog.manyAlong root f.path = true := by
  obtain ⟨v, hv⟩ := Option.isSome_iff_exists.1 h.collection
  obtain ⟨t, ht⟩ := h.filterTarget_ok
  obtain ⟨a, hterminal, -, -⟩ := Scope.resolveMarked_ok (s := Scope.new catalog root dataLabel) rfl ht
  obtain ⟨segments, p, name, marker, hparse, -, hmarker, -⟩ := Scope.terminal_ok hterminal
  obtain ⟨hsplit, -⟩ := FieldPath.parse_ok hparse
  obtain ⟨rfl, -⟩ := parseMarker_unmarked hmarker (notMem_last_of_unmarked hparse h.unmarked)
  unfold Catalog.manyAlong
  simp only [hparse, hmarker]
  rw [← hsplit]
  exact Catalog.manyAmong_of_tableAlong hv

theorem AsksMembership.label_inj (h : f.AsksMembership catalog root) : ∀ j ∈ f.joins catalog root,
    ∀ k ∈ f.joins catalog root, j.join.label = k.join.label → j = k := by
  obtain ⟨v, hv⟩ := Option.isSome_iff_exists.1 h.collection
  obtain ⟨t, ht⟩ := h.filterTarget_ok
  obtain ⟨-, htrace, -⟩ := Scope.filterTarget_shows (s := Scope.new catalog root dataLabel) rfl h.unmarked hv ht
  rw [joins_eq]
  exact Scope.label_inj_of_trace htrace

def required (f : Filter) : Request := { Request.all with required := [f] }

def optional (f : Filter) : Request := { Request.all with optional := [f] }

theorem AsksMembership.asks (h : f.AsksMembership catalog root) {r : Request} (hr : r.required ++ r.optional = [f]) :
    r.AsksMemberships catalog root := by
  constructor
  · rw [hr]
    exact List.forall_mem_singleton.2 h
  · rw [hr]
    exact List.forall_mem_singleton.2 (List.forall_mem_singleton.2 h.label_inj)

theorem membershipScope_eq {r : Request} (hr : r.required ++ r.optional = [f]) :
    r.membershipScope catalog root = (Scope.new catalog root dataLabel).addJoins (f.joins catalog root) := by
  unfold Request.membershipScope
  rw [hr, joins_eq]
  rfl

/-- The criterion compiled alone selects what the filter does where it is required, with its count. -/
theorem AsksMembership.selection_required (h : f.AsksMembership catalog root) :
    (f.predicate catalog root).selection
      (compileOnTerm (Scope.new catalog root dataLabel) f.path f.criterion []).scope =
        f.required.membershipSelection catalog root := by
  unfold Predicate.selection Request.membershipSelection
  rw [h.compile_base.2.1, membershipScope_eq (r := f.required) rfl, Scope.root_addJoins, Scope.label_addJoins]
  simp [required, Request.all, Scope.new, Expr.disjunction]

theorem AsksMembership.selection_optional (h : f.AsksMembership catalog root) :
    (f.predicate catalog root).alternative
      (compileOnTerm (Scope.new catalog root dataLabel) f.path f.criterion []).scope =
        f.optional.membershipSelection catalog root := by
  unfold Predicate.alternative Request.membershipSelection
  rw [h.compile_base.2.1, membershipScope_eq (r := f.optional) rfl, Scope.root_addJoins, Scope.label_addJoins]
  simp [optional, Request.all, Scope.new, Expr.disjunction]

section
variable (h : f.AsksMembership catalog root) (hd : d.Exact) (hdb : ∀ e ∈ catalog.entities, db.Identifies d e)
include h hd hdb

/-- **Required, a list selects the root rows that hold all of its values.** -/
theorem AsksMembership.selects_required (row : Row) :
    (f.required.membershipSelection catalog root).selects d db row = true ↔
      ∀ v ∈ f.values catalog root, f.HeldBy catalog root d db row v := by
  have hasks : f.required.AsksMemberships catalog root := h.asks rfl
  have hapart : f.required.Apart catalog root :=
    ⟨List.pairwise_singleton _ _, fun _ _ _ hg => (List.not_mem_nil hg).elim⟩
  constructor
  · intro hsel
    exact (hasks.metBy_of_selects hd hsel).1 f List.mem_cons_self
  · intro hheld
    exact hasks.selects_of_metBy hd hdb hapart ⟨List.forall_mem_singleton.2 hheld, .inl rfl⟩

/-- **Optional, it selects those that hold one of them.** -/
theorem AsksMembership.selects_optional (row : Row) :
    (f.optional.membershipSelection catalog root).selects d db row = true ↔
      ∃ v ∈ f.values catalog root, f.HeldBy catalog root d db row v := by
  have hasks : f.optional.AsksMemberships catalog root := h.asks rfl
  have hapart : f.optional.Apart catalog root := ⟨.nil, fun _ hg => (List.not_mem_nil hg).elim⟩
  constructor
  · intro hsel
    obtain ⟨g, hg, hheld⟩ := (hasks.metBy_of_selects hd hsel).2.resolve_left (List.cons_ne_nil _ _)
    rwa [List.mem_singleton.1 hg] at hheld
  · intro hheld
    exact hasks.selects_of_metBy hd hdb hapart
      ⟨fun _ hg => (List.not_mem_nil hg).elim, .inr ⟨f, List.mem_cons_self, hheld⟩⟩

end

theorem AsksMembership.heldBy_iff_of_single (h : f.AsksMembership catalog root) (hd : d.Exact)
    (hone : (Value.distinct (f.values catalog root)).length ≤ 1) (row : Row) {v w : Value}
    (hv : v ∈ f.values catalog root) (hw : w ∈ f.values catalog root) :
    f.HeldBy catalog root d db row v ↔ f.HeldBy catalog root d db row w := by
  obtain ⟨t, hreads⟩ := h.compile_base.1
  have hranks := (ranks_distinct hd hreads.holds).2
  have hsame : d.rank v = d.rank w := by
    have hv' := (hranks _).2 (List.mem_map_of_mem hv)
    have hw' := (hranks _).2 (List.mem_map_of_mem hw)
    rw [← List.length_map (f := d.rank)] at hone
    rcases hcs : (Value.distinct (f.values catalog root)).map d.rank with _ | ⟨x, _ | ⟨y, xs⟩⟩
    · rw [hcs] at hv'
      cases hv'
    · rw [hcs] at hv' hw'
      rw [List.mem_singleton.1 hv', List.mem_singleton.1 hw']
    · rw [hcs] at hone
      simp at hone
  unfold HeldBy
  simp only [Dialect.equal_value, hsame]

end Filter

/-! ## Both sides -/

/-- **An optional list keeps the root rows that hold one of its values, and its negation, optional too, those that lack
one of them**, in whatever order.  So each root row is kept by one of the two at least, and just by one if the list is
of one value. -/
theorem optional_list_and_negation {catalog : Catalog} {root : Entity} (caps : Capabilities) (wantCount : Bool)
    {recipe : Option Recipe} (hwhole : ∀ x ∈ recipe, x = Recipe.wholeEntity) {f : Filter}
    (h : f.AsksMembership catalog root) {ordering : List Ordering}
    (hsorts : (Request.preferring ordering f.path f.criterion).Sorts catalog root) :
    ∃ yes no,
      (PagePlan.build catalog root caps (.preferring ordering f.path f.criterion) wantCount recipe false).2 = .ok yes ∧
      (PagePlan.build catalog root caps (.preferring ordering f.path (.negation f.criterion)) wantCount recipe
        false).2 = .ok no ∧
      ∀ (d : Dialect) (db : Store), d.Exact → (∀ e ∈ root :: catalog.entities, db.Identifies d e) →
        ∀ row ∈ db.rows root.table,
          (yes.data.statement.draws d db root.identityColumn (row root.identityColumn) = true ↔
            ∃ v ∈ f.values catalog root, f.HeldBy catalog root d db row v) ∧
          (no.data.statement.draws d db root.identityColumn (row root.identityColumn) = true ↔
            ∃ v ∈ f.values catalog root, ¬f.HeldBy catalog root d db row v) ∧
          (yes.data.statement.draws d db root.identityColumn (row root.identityColumn) = true ∨
            no.data.statement.draws d db root.identityColumn (row root.identityColumn) = true) ∧
          ((Value.distinct (f.values catalog root)).length ≤ 1 →
            no.data.statement.draws d db root.identityColumn (row root.identityColumn) =
              !yes.data.statement.draws d db root.identityColumn (row root.identityColumn)) := by
  obtain ⟨ls, -, -, hlist⟩ := h.literals
  have hplain : ∀ inner, f.criterion ≠ .negation inner := fun inner heq => by
    rw [hlist] at heq
    cases heq
  have hterm : (compileOnTerm (Scope.new catalog root dataLabel) f.path f.criterion []).outcome =
      .ok (f.predicate catalog root) := h.compile_base.2.2
  have hcompiles : (compile (Scope.new catalog root dataLabel) f.path f.criterion []).outcome =
      .ok (f.predicate catalog root) := by
    rw [compile_plain hplain]
    exact hterm
  obtain ⟨hopened, hnegated⟩ := compile_negation hterm h.manyAlong
  obtain ⟨yes, hyes, hyesDraws⟩ := preferring_draws caps wantCount hwhole hsorts rfl hcompiles
  -- an order means the same whatever the criterion is
  have hsorts' : (Request.preferring ordering f.path (.negation f.criterion)).Sorts catalog root := hsorts
  obtain ⟨no, hno, hnoDraws⟩ := preferring_draws caps wantCount hwhole hsorts' rfl hnegated
  refine ⟨yes, no, hyes, hno, fun d db hd hdb row hrow => ?_⟩
  have hroot := hdb root List.mem_cons_self
  have hentities : ∀ e ∈ catalog.entities, db.Identifies d e := fun e he => hdb e (List.mem_cons_of_mem root he)
  have hsome : yes.data.statement.draws d db root.identityColumn (row root.identityColumn) = true ↔
      ∃ v ∈ f.values catalog root, f.HeldBy catalog root d db row v := by
    rw [hyesDraws d db hroot row hrow, compile_plain hplain, h.selection_optional]
    exact h.selects_optional hd hentities row
  have hlacks : no.data.statement.draws d db root.identityColumn (row root.identityColumn) = true ↔
      ∃ v ∈ f.values catalog root, ¬f.HeldBy catalog root d db row v := by
    have hnone := isTrue_negation hterm hroot hrow
    rw [h.selection_required] at hnone
    have hdraws : no.data.statement.draws d db root.identityColumn (row root.identityColumn) =
        !(f.required.membershipSelection catalog root).selects d db row := by
      rw [hnoDraws d db hroot row hrow, hopened, Selection.selects_of_bare rfl rfl, ← hnone]
      exact Bool.and_true _
    rw [hdraws, Bool.not_eq_true', ← Bool.not_eq_true, h.selects_required hd hentities row]
    push Not
    rfl
  obtain ⟨t, hreads⟩ := h.compile_base.1
  obtain ⟨v, hv⟩ := List.exists_mem_of_ne_nil _ hreads.ne_nil
  refine ⟨hsome, hlacks, ?_, fun hone => ?_⟩
  · rw [hsome, hlacks]
    by_cases hheld : f.HeldBy catalog root d db row v
    · exact .inl ⟨v, hv, hheld⟩
    · exact .inr ⟨v, hv, hheld⟩
  · rw [Bool.eq_iff_iff, Bool.not_eq_true', ← Bool.not_eq_true, hsome, hlacks]
    constructor
    · rintro ⟨w, hw, hlack⟩ ⟨u, hu, hheld⟩
      exact hlack ((h.heldBy_iff_of_single hd hone row hu hw).1 hheld)
    · intro hnone
      exact ⟨v, hv, fun hheld => hnone ⟨v, hv, hheld⟩⟩

/-! ## A small store -/

open Sample in
/-- Among optional criteria, by name: with a pen or an ink among their orders, and without one of them. -/
theorem items_preferred_or_not :
    ∃ yes no,
      (PagePlan.build catalog person Backend.postgres.capabilities
        (.preferring [⟨"name", true⟩] "orders.items" bothItems) true none false).2 = .ok yes ∧
      (PagePlan.build catalog person Backend.postgres.capabilities
        (.preferring [⟨"name", true⟩] "orders.items" (.negation bothItems)) true none false).2 = .ok no ∧
      ∀ row ∈ store.rows "persons",
        (yes.data.statement.draws .plain store "id" (row "id") = true ↔
          ∃ v ∈ (listed "orders.items" [.text "pen", .text "ink"]).values catalog person,
            (listed "orders.items" [.text "pen", .text "ink"]).HeldBy catalog person .plain store row v) ∧
        (no.data.statement.draws .plain store "id" (row "id") = true ↔
          ∃ v ∈ (listed "orders.items" [.text "pen", .text "ink"]).values catalog person,
            ¬(listed "orders.items" [.text "pen", .text "ink"]).HeldBy catalog person .plain store row v) := by
  have hwhole : ∀ x ∈ (none : Option Recipe), x = Recipe.wholeEntity := fun x hx => by cases hx
  have hsorts : (Request.preferring [⟨"name", true⟩] "orders.items" bothItems).Sorts catalog person := by decide +kernel
  have hdb : ∀ e ∈ person :: catalog.entities, store.Identifies .plain e := by decide +kernel
  obtain ⟨yes, no, hyes, hno, hdraws⟩ :=
    optional_list_and_negation Backend.postgres.capabilities true hwhole items_asked hsorts
  refine ⟨yes, no, hyes, hno, fun row hrow => ?_⟩
  obtain ⟨hsome, hlacks, -⟩ := hdraws .plain store exact_plain hdb row hrow
  exact ⟨hsome, hlacks⟩

open Sample in
/-- Ada has a pen among her orders, and no cup: she is drawn for a list of the two, and for its negation. -/
theorem pen_without_cup_on_both_sides :
    Dialect.plain.Exact ∧ (∀ e ∈ person :: catalog.entities, store.Identifies .plain e) ∧
    (listed "orders.items" [.text "pen", .text "cup"]).AsksMembership catalog person ∧
    ∃ yes no,
      (PagePlan.build catalog person Backend.postgres.capabilities (.preferring [] "orders.items"
        (listed "orders.items" [.text "pen", .text "cup"]).criterion) true none false).2 = .ok yes ∧
      (PagePlan.build catalog person Backend.postgres.capabilities (.preferring [] "orders.items"
        (.negation (listed "orders.items" [.text "pen", .text "cup"]).criterion)) true none false).2 = .ok no ∧
      ∃ row ∈ store.rows "persons", yes.data.statement.draws .plain store "id" (row "id") = true ∧
        no.data.statement.draws .plain store "id" (row "id") = true := by
  refine ⟨exact_plain, by decide +kernel,
    asksMembership_listed (by decide +kernel) (by decide +kernel) (by decide) (by decide +kernel), ?_⟩
  obtain ⟨row, hrow, hid⟩ : ∃ row ∈ store.rows "persons", row "id" = some (.int64 1) := ⟨_, List.mem_cons_self, rfl⟩
  obtain ⟨yes, hyes, hdrawn⟩ := exists_ok
    (P := fun plan : PagePlan => plan.data.statement.draws .plain store "id" (some (.int64 1)) = true)
    (x := (PagePlan.build catalog person Backend.postgres.capabilities (.preferring [] "orders.items"
      (listed "orders.items" [.text "pen", .text "cup"]).criterion) true none false).2) (by decide +kernel)
  obtain ⟨no, hno, hdrawn'⟩ := exists_ok
    (P := fun plan : PagePlan => plan.data.statement.draws .plain store "id" (some (.int64 1)) = true)
    (x := (PagePlan.build catalog person Backend.postgres.capabilities (.preferring [] "orders.items"
      (.negation (listed "orders.items" [.text "pen", .text "cup"]).criterion)) true none false).2) (by decide +kernel)
  rw [← hid] at hdrawn hdrawn'
  exact ⟨yes, no, hyes, hno, row, hrow, hdrawn, hdrawn'⟩

end PageQuery
